import LightestFirst.Proofs.Networks.SettledStreams
-- Asking again. What a stream has answered it has kept, and asking for it once more is no more than looking it up:
-- nothing is called, and the conversation goes on as if nobody had asked. An end that has been answered stays.
namespace LightestFirst
variable {α β : Type}

theorem Table.put_put {table : Table β} {name : String} {value other : β} :
    (table.put name other).put name value = table.put name value := by
  rw [put, put, erase_cons_self, ← put, put_erase]

-- The same kept answers and counts, with nothing left that could be called: what stood inside is spent, the functions
-- refuse, and the iterators are dry.
def Stream.stilled : Stream α → Stream α
  | .empty => .empty
  | .single state => .single state
  | .iterated ⟨supply, head⟩ => .iterated ⟨{ supply with answers := fun _ => none }, head⟩
  | .postponed (.forced inner) => .postponed (.forced inner.stilled)
  | .mapped _ ⟨_, cached, calls⟩ =>
    .mapped (fun _ _ ledger => (.error .unbuilt, ledger)) ⟨.postponed .spent, cached, calls⟩
  | .merged le ⟨_, _, verdict⟩ => .merged le ⟨.postponed .spent, .postponed .spent, verdict⟩
  | .paired le _ state =>
    .paired le (fun _ _ ledger => (.error .unbuilt, ledger))
      { state with left := .postponed .spent, right := state.right.replace (.postponed .spent) }
  | .multiplexer cell reader => .multiplexer cell reader
  | .view cell reader => .view cell reader
  | .boxed inner => .boxed inner.stilled
  | _ => .postponed .spent

-- This handle by itself, stilled, with the buffers as they are but no source to feed them, and no other handle.
def Network.alone (network : Network α) (handle : String) : Network α :=
  { network with
    cells := network.cells.map (·.replace none)
    multiplexers := []
    handles := match network.handles.get? handle with
      | some (.stream stream) => [(handle, .stream stream.stilled)]
      | _ => [] }

theorem Network.settled_alone (network : Network α) (handle : String) (cell place : Nat) :
    (network.alone handle).settled? cell place = network.settled? cell place := by
  rw [settled?, settled?, alone, Array.getElem?_map, Option.bind_map]
  rfl

theorem Stream.Knows.stilled {depth : Nat} {status : Status α} {stream : Stream α} {network quiet : Network α}
    (knows : Knows depth status stream network)
    (same : ∀ cell place, quiet.settled? cell place = network.settled? cell place) :
    Knows depth status stream.stilled quiet := by
  induction knows with
  | empty => exact .empty
  | single => exact .single
  | consumed => exact .consumed
  | iterated kept => exact .iterated kept
  | forced _ ih => exact .forced (ih same)
  | mapped => exact .mapped
  | merged kept => exact .merged kept
  | paired chosen kept => exact .paired chosen kept
  | multiplexer settled shown => exact .multiplexer ((same _ _).trans settled) shown
  | view settled shown => exact .view ((same _ _).trans settled) shown
  | boxed _ ih => exact .boxed (ih same)

-- A step after which the name may stand for another stream, or for one that is read by taking.
def Step.Binds (handle : String) : Step α → Prop
  | .define name _ => name = handle
  | .addView _ view => view = handle
  | .fork _ copy => copy = handle
  | .iterate name => name = handle
  | .release name => name = handle
  | _ => False

namespace Network

def Holds (depth : Nat) (handle : String) (status : Status α) (network : Network α) : Prop :=
  ∃ stream others, network.handles = Table.put others handle (.stream stream) ∧ Stream.Knows depth status stream network

def Done (depth : Nat) (handle : String) (network : Network α) : Prop :=
  ∀ held, network.handles.get? handle = some held →
    ∃ stream, held = .stream stream ∧ Stream.Knows depth .ended stream network

variable {network after : Network α} {depth : Nat} {handle other : String}

theorem Holds.done (holds : network.Holds depth handle .ended) : network.Done depth handle := by
  obtain ⟨stream, others, same, knows⟩ := holds
  intro held found
  rw [same, Table.get?_put_self] at found
  exact ⟨stream, (Option.some.inj found).symm, knows⟩

theorem Done.moved (done : network.Done depth handle) (lasts : Outlasts network after)
    (fewer : ∀ held, after.handles.get? handle = some held → network.handles.get? handle = some held) :
    after.Done depth handle := by
  intro held found
  obtain ⟨stream, same, knows⟩ := done held (fewer held found)
  exact ⟨stream, same, knows.outlasts lasts⟩

theorem Done.kept (done : network.Done depth handle) (kept : KeepsAnswers network after) : after.Done depth handle :=
  done.moved kept.1 (kept.2 handle)

theorem Done.erase (done : network.Done depth handle) (name : String) :
    Done depth handle { network with handles := network.handles.erase name } :=
  done.kept (keepsAnswers_confines.takes network name)

theorem Done.put (done : network.Done depth handle) (apart : other ≠ handle) (held : Handle α) :
    Done depth handle { network with handles := network.handles.put other held } :=
  done.moved (.aside rfl) fun _ found => (Table.get?_put_of_ne _ _ (Ne.symm apart)).symm.trans found

theorem Holds.query (definitions : Definitions α) {status : Status α} (holds : network.Holds depth handle status) :
    Session.step (Stream.machine definitions depth) (.query handle) network = (.status status, network) := by
  obtain ⟨stream, others, same, knows⟩ := holds
  obtain ⟨cells, multiplexers, handles, ledger⟩ := network
  obtain rfl : handles = _ := same
  have taken : Outlasts ⟨cells, multiplexers, others.put handle (.stream stream), ledger⟩
      ⟨cells, multiplexers, (others.put handle (.stream stream)).erase handle, ledger⟩ := .aside rfl
  have asked := (knows.outlasts taken).query definitions
  rw [Session.step, Session.onHandle_eq (Table.get?_put_self ..) asked, Table.put_erase, Table.put_put]
  rfl

theorem Done.answers (definitions : Definitions α) (done : network.Done depth handle) :
    network.handles.get? handle = none ∨
      (Session.step (Stream.machine definitions depth) (.query handle) network).1 = .status .ended := by
  cases found : network.handles.get? handle with
  | none => exact .inl rfl
  | some held =>
    obtain ⟨stream, rfl, knows⟩ := done held found
    have taken : Outlasts network { network with handles := network.handles.erase handle } := .aside rfl
    rw [Session.step, Session.onHandle_eq found ((knows.outlasts taken).query definitions)]
    exact .inr rfl

theorem Holds.alone {status : Status α} (holds : network.Holds depth handle status) :
    (network.alone handle).Holds depth handle status := by
  obtain ⟨stream, others, same, knows⟩ := holds
  refine ⟨stream.stilled, [], ?_, knows.stilled (settled_alone network handle)⟩
  rw [Network.alone, same, Table.get?_put_self]
  rfl

end Network

open Network

namespace Session
variable {definitions : Definitions α} {network after : Network α} {depth : Nat} {handle other : String}
  {status : Status α}

theorem query_holds (steady : definitions.Steady) (poised : network.Poised)
    (asked : step (Stream.machine definitions depth) (.query handle) network = (.status status, after))
    (stable : status ≠ .pending) : after.Holds depth handle status := by
  rw [step, onHandle] at asked
  split at asked
  · cases asked
  · next held found =>
    split at asked
    · cases asked
    · next stream fitting =>
      obtain rfl := Handle.Kind.streams.eq_put fitting
      have settles := Stream.query_settles steady depth (poised.erase poised_ignoresHandles handle)
        (poised_ignoresHandles.fits (network.handles.erase handle) (poised.handles found))
      generalize (Stream.machine definitions depth).query stream _ = outcome at asked settles
      obtain ⟨_ | answer, later, middle⟩ := outcome
      · cases asked
      · cases asked
        exact ⟨later, middle.handles, rfl, (settles.knows rfl stable).outlasts (.aside rfl)⟩

def Idle {τ : Type} (depth : Nat) (kind : Handle.Kind α τ) (call : τ → Network α → Attempt β × τ × Network α) : Prop :=
  ∀ ⦃stream state network⦄, kind.of? (.stream stream) = some state → Stream.Knows depth .ended stream network →
    ∃ result, call state network = (result, state, network)

theorem Idle.of_stream {call : Stream α → Network α → Attempt β × Stream α × Network α}
    (idle : ∀ {stream network}, Stream.Knows depth .ended stream network → ∃ result, call stream network =
      (result, stream, network)) : Idle depth .streams call := by
  intro stream state network fitting knows
  obtain rfl := Option.some.inj fitting
  exact idle knows

theorem Idle.of_iteration {call : Iteration (Stream α) α → Network α → Attempt β × Iteration (Stream α) α × Network α} :
    Idle depth .iterations call := by
  intro stream state network fitting
  cases fitting

theorem query_idle (definitions : Definitions α) (depth : Nat) :
    Idle depth .streams (Stream.machine definitions depth).query :=
  .of_stream fun knows => ⟨_, knows.query definitions⟩

theorem advance_idle (definitions : Definitions α) (depth : Nat) :
    Idle depth .streams (Stream.machine definitions depth).advance :=
  .of_stream fun knows => (knows.advance definitions).imp' Except.error fun _ refused => refused

theorem drain_idle (definitions : Definitions α) (depth limit retries : Nat) :
    Idle depth .streams (drain (Stream.machine definitions depth) limit retries [] 0) := by
  refine .of_stream fun {stream network} knows => ?_
  cases limit with
  | zero => exact ⟨_, by rw [drain]⟩
  | succ limit => exact ⟨_, by rw [drain, knows.query definitions]⟩

theorem borrow_idle (definitions : Definitions α) (depth limit : Nat) : Idle depth .streams fun stream network =>
    match Iteration.take (Stream.machine definitions depth) limit (.start stream) network with
    | (result, iteration, network) => (result, iteration.stream, network) := by
  refine .of_stream fun {stream network} knows => ?_
  cases limit with
  | zero => exact ⟨_, rfl⟩
  | succ limit =>
    simp only [Iteration.take, Iteration.takeOnto, Iteration.takeNext, Iteration.peek, Iteration.start,
      knows.query definitions]
    exact ⟨_, rfl⟩

theorem onHandle_done {τ : Type} {kind : Handle.Kind α τ} {form : β → Reply α}
    {call : τ → Network α → Attempt β × τ × Network α} (kept : ∀ state network, KeepsAnswers network (call state network).2.2)
    (idle : Idle depth kind call) (done : network.Done depth handle) :
    (onHandle kind other form call network).2.Done depth handle := by
  rw [onHandle]
  split
  · exact done
  · next held found =>
    split
    · exact done
    · next state fitting =>
      by_cases apart : other = handle
      · subst apart
        obtain ⟨stream, rfl, knows⟩ := done _ found
        have aside : Outlasts network { network with handles := network.handles.erase other } := .aside rfl
        obtain ⟨result, unmoved⟩ := idle fitting (knows.outlasts aside)
        rw [unmoved]
        intro held found
        rw [Table.get?_put_self] at found
        exact ⟨stream, (Option.some.inj found).symm.trans (kind.eq_put fitting).symm, knows.outlasts (.aside rfl)⟩
      · have kept := kept state { network with handles := network.handles.erase other }
        generalize call state _ = outcome at kept ⊢
        obtain ⟨result, later, middle⟩ := outcome
        exact ((done.erase other).kept kept).put apart _

theorem derive_done {fresh : String} {make : Stream α → Option (Stream α)} (apart : fresh ≠ handle)
    (done : network.Done depth handle) : (derive other fresh make network).2.Done depth handle := by
  rw [derive]
  split
  · exact done
  · exact done
  · split
    · exact done
    · exact done.put apart _

theorem rehandle_done {change : Handle α → Handle α} (apart : other ≠ handle)
    (done : network.Done depth handle) : (rehandle other change network).2.Done depth handle := by
  rw [rehandle]
  split
  · exact done
  · exact done.put apart _

theorem step_done (definitions : Definitions α) {step : Step α} (apart : ¬ step.Binds handle)
    (done : network.Done depth handle) :
    (Session.step (Stream.machine definitions depth) step network).2.Done depth handle := by
  have drifts : Drifts (KeepsAnswers : Network α → Network α → Prop) := keepsAnswers_confines.drifts
  have along := Stream.machine_along keepsAnswers_confines definitions depth
  cases step with
  | define name recipe =>
    have kept := recipe.build_along keepsAnswers_confines 0 network
    rw [Session.step, define]
    generalize recipe.build 0 network = outcome at kept
    obtain ⟨_ | stream, after⟩ := outcome
    · exact done.kept kept
    · exact ((done.kept kept).put apart (.stream stream)).kept (.aside rfl rfl)
  | drop name =>
    rw [Session.step]
    split
    · exact done
    · exact done.erase name
  | query name => exact onHandle_done along.query (query_idle definitions depth) done
  | advance name => exact onHandle_done along.advance (advance_idle definitions depth) done
  | inspect name => exact onHandle_done along.query (query_idle definitions depth) done
  | drain name limit retries =>
    exact onHandle_done (drain_along drifts along limit retries [] 0) (drain_idle definitions depth limit retries) done
  | borrow name limit =>
    refine onHandle_done (fun stream network => ?_) (borrow_idle definitions depth limit) done
    exact Iteration.takeOnto_along drifts along [] limit (.start stream) network
  | iterate name => exact rehandle_done apart done
  | release name => exact rehandle_done apart done
  | hasNext name | isPending name | peek name => exact onHandle_done (Iteration.peek_along drifts along) .of_iteration done
  | next name | takeNext name => exact onHandle_done (Iteration.takeNext_along drifts along) .of_iteration done
  | collect name limit => exact onHandle_done (Iteration.takeOnto_along drifts along [] limit) .of_iteration done
  | addView multiplexer view => exact derive_done apart done
  | fork view copy => exact derive_done apart done
  | buffered name | exhausted name | position name | lanes name | forced name =>
    exact (observe_network ..).symm ▸ done
  | openGate | closeGate => exact done.kept (.aside rfl rfl)
  | counter name => exact done

theorem steps_done (definitions : Definitions α) {conversation : List (Step α)}
    (apart : ∀ step ∈ conversation, ¬ step.Binds handle) (done : network.Done depth handle) :
    (steps (Stream.machine definitions depth) network conversation).2.Done depth handle := by
  induction conversation generalizing network with
  | nil => exact done
  | cons first rest ih =>
    exact ih (fun step among => apart step (List.mem_cons_of_mem _ among))
      (step_done definitions (apart first List.mem_cons_self) done)

section Runs
variable {machine : Machine (Network α) (Stream α) α}

theorem steps_append (network : Network α) (first second : List (Step α)) :
    steps machine network (first ++ second) =
      ((steps machine network first).1 ++ (steps machine (steps machine network first).2 second).1,
        (steps machine (steps machine network first).2 second).2) := by
  induction first generalizing network with
  | nil => rfl
  | cons head rest ih => simp only [List.cons_append, steps, ih]

theorem steps_repeated {again : Step α} {reply : Reply α} (still : step machine again network = (reply, network))
    (count : Nat) (rest : List (Step α)) :
    steps machine network (List.replicate count again ++ rest) =
      (List.replicate count reply ++ (steps machine network rest).1, (steps machine network rest).2) := by
  induction count with
  | zero => rfl
  | succ count ih => simp only [List.replicate_succ, List.cons_append, steps, still, ih]

end Runs

-- A stream has answered with an element or with its end. However often it is asked again at once, it answers the same,
-- and what is said afterwards is answered as if nobody had asked: everything is left as it was, what functions,
-- iterators and deferred parts have counted included. With nothing left that could be called it answers the same, too.
-- An end is answered for as long as the handle stands for this stream.
theorem asking_again_changes_nothing {definitions : Definitions α} (steady : definitions.Steady)
    {conversation : List (Step α)} (fine : ∀ step ∈ conversation, step.Steady) {replies : List (Reply α)}
    (met : steps (Stream.machine definitions depth) .blank conversation = (replies, network))
    (asked : step (Stream.machine definitions depth) (.query handle) network = (.status status, after))
    (stable : status ≠ .pending) :
    (∀ (again : Nat) (rest : List (Step α)),
      steps (Stream.machine definitions depth) .blank
          (conversation ++ .query handle :: (List.replicate again (.query handle) ++ rest)) =
        (replies ++ .status status :: (List.replicate again (.status status) ++
            (steps (Stream.machine definitions depth) after rest).1),
          (steps (Stream.machine definitions depth) after rest).2)) ∧
      (∀ others : Definitions α, step (Stream.machine others depth) (.query handle) (after.alone handle) =
        (.status status, after.alone handle)) ∧
      (status = .ended → ∀ rest : List (Step α), (∀ step ∈ rest, ¬ step.Binds handle) →
        (steps (Stream.machine definitions depth) after rest).2.handles.get? handle = none ∨
          (step (Stream.machine definitions depth) (.query handle)
            (steps (Stream.machine definitions depth) after rest).2).1 = .status .ended) := by
  have poised : network.Poised := by
    have reached := steps_poised (Stream.machine_poised steady depth) fine blank_poised
    rwa [met] at reached
  have holds := query_holds steady poised asked stable
  refine ⟨fun again rest => ?_, fun others => holds.alone.query others, ?_⟩
  · rw [steps_append, met]
    dsimp only
    rw [steps, asked]
    dsimp only
    rw [steps_repeated (holds.query definitions)]
  · rintro rfl rest apart
    exact (steps_done definitions apart holds.done).answers definitions

-- One buffer over an iterator that has another element behind its first `none`, and a merge that reads it.
def dwindling : List (Step Nat) :=
  [.define "buffer" (.multiplexed (.mapped (fun _ value ledger => (.ok (value + 1), ledger.tally "call"))
      (.iterated (.broken [1] [7])))),
    .define "tree" (.boxed (.deferred (some "build") (.merged Nat.ble (.view "buffer") (.single 5)))),
    .query "tree", .advance "tree", .query "tree", .advance "tree"]

theorem dwindling_stays_ended : ∃ network after : Network Nat,
    steps (Stream.machine [] 6) .blank dwindling =
      ([.done, .done, .status (.ready 2), .done, .status (.ready 5), .done], network) ∧
    step (Stream.machine [] 6) (.query "tree") network = (.status .ended, after) ∧
    after.ledger.count "call" = 1 ∧ after.ledger.count "build" = 1 ∧
    steps (Stream.machine [] 6) .blank (dwindling ++ .query "tree" :: (List.replicate 2 (.query "tree") ++
        [.counter "call", .query "buffer", .advance "buffer", .query "buffer"])) =
      ([.done, .done, .status (.ready 2), .done, .status (.ready 5), .done, .status .ended, .status .ended, .status .ended,
          .number 1, .status (.ready 2), .done, .status .ended],
        (steps (Stream.machine [] 6) after [.counter "call", .query "buffer", .advance "buffer", .query "buffer"]).2) ∧
    step (Stream.machine [] 6) (.query "tree") (after.alone "tree") = (.status .ended, after.alone "tree") ∧
    (step (Stream.machine [] 6) (.query "tree") (steps (Stream.machine [] 6) after
      [.counter "call", .query "buffer", .advance "buffer", .query "buffer"]).2).1 = .status .ended := by
  have steady : Definitions.Steady ([] : Definitions Nat) := fun found => by cases found
  have fine : ∀ step ∈ dwindling, step.Steady := by simp [dwindling, Step.Steady, Recipe.Steady]
  have met : steps (Stream.machine [] 6) .blank dwindling =
      ([.done, .done, .status (.ready 2), .done, .status (.ready 5), .done],
        (steps (Stream.machine [] 6) .blank dwindling).2) := rfl
  have asked : step (Stream.machine [] 6) (.query "tree") (steps (Stream.machine [] 6) .blank dwindling).2 =
      (.status .ended, (step (Stream.machine [] 6) (.query "tree") (steps (Stream.machine [] 6) .blank dwindling).2).2) :=
    rfl
  obtain ⟨repeats, quiet, stays⟩ := asking_again_changes_nothing steady fine met asked (by decide)
  refine ⟨_, _, met, asked, rfl, rfl, repeats 2 _, quiet [], ?_⟩
  refine (stays rfl _ ?_).resolve_left nofun
  simp [Step.Binds]

end Session
end LightestFirst
