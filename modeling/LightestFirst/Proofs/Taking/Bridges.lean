import Mathlib.Data.Seq.Defs
import LightestFirst.Proofs.Reading
import LightestFirst.Proofs.Sharing
-- A stream read by taking, through one bridge after another. Each bridge may be looked at and taken from
-- in whatever order, and given up with an answer still kept; the stream may hold answers back meanwhile.
-- Everything that is said to the stream is written down, so that it can be told what was never said.
namespace LightestFirst
variable {ω σ α : Type}

inductive Exchange (α : Type) where
  | asked (answer : Attempt (Status α))
  | advanced (answer : Attempt Unit)

namespace Exchange

def isAdvance : Exchange α → Bool
  | .asked _ => false
  | .advanced _ => true

-- Every advance stands right behind a query that was answered `ready`. The latest exchange is the first.
inductive Lawful : List (Exchange α) → Prop where
  | start : Lawful []
  | asked {answer : Attempt (Status α)} {earlier : List (Exchange α)} (before : Lawful earlier) :
      Lawful (.asked answer :: earlier)
  | advanced {answer : Attempt Unit} {value : α} {earlier : List (Exchange α)}
      (shown : earlier.head? = some (.asked (.ok (.ready value)))) (before : Lawful earlier) :
      Lawful (.advanced answer :: earlier)

end Exchange

structure Logged (σ α : Type) where
  stream : σ
  log : List (Exchange α)

namespace Logged

def start (stream : σ) : Logged σ α := ⟨stream, []⟩

def machine (source : Machine ω σ α) : Machine ω (Logged σ α) α where
  query state world :=
    match source.query state.stream world with
    | (answer, stream, world) => (answer, ⟨stream, .asked answer :: state.log⟩, world)
  advance state world :=
    match source.advance state.stream world with
    | (answer, stream, world) => (answer, ⟨stream, .advanced answer :: state.log⟩, world)

theorem query_eq {source : Machine ω σ α} {stream later : σ} {world after : ω} {answer : Attempt (Status α)}
    (told : source.query stream world = (answer, later, after)) (log : List (Exchange α)) :
    (machine source).query ⟨stream, log⟩ world = (answer, ⟨later, .asked answer :: log⟩, after) := by
  simp only [machine, told]

theorem advance_eq {source : Machine ω σ α} {stream later : σ} {world after : ω} {answer : Attempt Unit}
    (passed : source.advance stream world = (answer, later, after)) (log : List (Exchange α)) :
    (machine source).advance ⟨stream, log⟩ world = (answer, ⟨later, .advanced answer :: log⟩, after) := by
  simp only [machine, passed]

end Logged

namespace Taking

inductive Call where
  | hasNext
  | isPending
  | peek
  | takeNext
  | next
deriving DecidableEq

-- What a call replies where this is the answer at the stream's position.
def Call.tells : Call → Status α → Reply α
  | .hasNext, status => .flag status.isReady
  | .isPending, status => .flag status.isPending
  | .peek, status => .status status
  | .takeNext, .ready value => .taken (.ok value)
  | .takeNext, .ended => .taken (.error .exhausted)
  | .takeNext, .pending => .taken (.error .pending)
  | .next, status => .element status.ready?

def item? : Reply α → Option α
  | .taken result => result.toOption
  | .element value => value
  | _ => none

def handing (reply : Reply α) : List (Exchange α) := ((item? reply).map fun _ => .advanced (.ok ())).toList

section Calls
variable (machine : Machine ω σ α)

def replied {β τ : Type} (form : β → Reply α) (outcome : Attempt β × τ × ω) : Reply α × τ × ω :=
  match outcome with
  | (result, state, world) => (Session.reply form result, state, world)

def Call.run : Call → Iteration σ α → ω → Reply α × Iteration σ α × ω
  | .hasNext, state, world => replied (fun status => .flag status.isReady) (Iteration.peek machine state world)
  | .isPending, state, world => replied (fun status => .flag status.isPending) (Iteration.peek machine state world)
  | .peek, state, world => replied .status (Iteration.peek machine state world)
  | .takeNext, state, world => replied .taken (Iteration.takeNext machine state world)
  | .next, state, world => replied Session.taking (Iteration.takeNext machine state world)

end Calls

def Call.step (handle : String) : Call → LightestFirst.Step α
  | .hasNext => .hasNext handle
  | .isPending => .isPending handle
  | .peek => .peek handle
  | .takeNext => .takeNext handle
  | .next => .next handle

theorem Call.step_run {machine : Machine (Network α) (Stream α) α} {network : Network α} {handle : String}
    {iteration : Iteration (Stream α) α} (found : network.handles.get? handle = some (.iteration iteration))
    (call : Call) : Session.step machine (call.step handle) network =
      match call.run machine iteration { network with handles := network.handles.erase handle } with
      | (reply, iteration, network) =>
        (reply, { network with handles := network.handles.put handle (.iteration iteration) }) := by
  cases call <;> simp [Session.step, Call.step, Session.onHandle, Handle.Kind.iterations, found, Call.run, replied]

structure State (ω σ α : Type) where
  bridge : Iteration (Logged σ α) α
  world : ω
  -- what has been taken, through this bridge and those before it
  items : List α

namespace State

def start (stream : σ) (world : ω) : State ω σ α := ⟨.start (.start stream), world, []⟩

def log (now : State ω σ α) : List (Exchange α) := now.bridge.stream.log

def advances (now : State ω σ α) : Nat := now.log.countP Exchange.isAdvance

end State

inductive Event (α : Type) where
  | called (call : Call) (reply : Reply α)
  -- the stream is taken back and handed to a new bridge
  | rewrapped
  -- something else moved the world
  | elsewhere

namespace Event

def item? : Event α → Option α
  | .called _ reply => Taking.item? reply
  | _ => none

def isRewrapped : Event α → Bool
  | .rewrapped => true
  | _ => false

end Event

section Steps
variable (setting : Setting ω) (source : Machine ω σ α)

inductive Step : State ω σ α → Event α → State ω σ α → Prop where
  | called {now : State ω σ α} {call : Call} {reply : Reply α} {bridge : Iteration (Logged σ α) α} {world : ω}
      (run : call.run (Logged.machine source) now.bridge now.world = (reply, bridge, world)) :
      Step now (.called call reply) ⟨bridge, world, now.items ++ (item? reply).toList⟩
  | rewrapped {now : State ω σ α} : Step now .rewrapped ⟨.start now.bridge.stream, now.world, now.items⟩
  | elsewhere {now : State ω σ α} {world : ω} (moved : setting.moves now.world world)
      (sound : setting.sound world) : Step now .elsewhere ⟨now.bridge, world, now.items⟩

def Waits (now : State ω σ α) (event : Event α) (later : State ω σ α) : Prop :=
  Step setting source now event later ∧ event.isRewrapped = false ∧ event.item? = none

end Steps

variable {setting : Setting ω} {source : Machine ω σ α} {course : Course α} {stands : Standing σ ω}

-- How a bridge stands over its stream. What it keeps is the stream's answer where the stream stands, and
-- nothing has been said to the stream since it gave it.
structure Stands (course : Course α) (stands : Standing σ ω) (place : Nat) (bridge : Iteration (Logged σ α) α)
    (world : ω) : Prop where
  there : ∃ seen, (bridge.peeked.isSome = true → seen = true) ∧ stands place seen bridge.stream.stream world
  keeps : ∀ status, bridge.peeked = some status → status.isStable = true ∧ course place = status ∧
    bridge.stream.log.head? = some (.asked (.ok status))
  lawful : Exchange.Lawful bridge.stream.log
  advances : bridge.stream.log.countP Exchange.isAdvance = place

theorem Stands.kept {place : Nat} {bridge : Iteration (Logged σ α) α} {before after : ω}
    (there : Stands course stands place bridge before) (inside : stands.Kept before after) :
    Stands course stands place bridge after := by
  obtain ⟨seen, flag, standing⟩ := there.there
  exact ⟨⟨seen, flag, inside standing⟩, there.keeps, there.lawful, there.advances⟩

theorem Stands.of_stream {place : Nat} {seen : Bool} {stream : σ} {log : List (Exchange α)} {world : ω}
    (standing : stands place seen stream world) (lawful : Exchange.Lawful log)
    (advances : log.countP Exchange.isAdvance = place) : Stands course stands place ⟨⟨stream, log⟩, none⟩ world :=
  ⟨⟨seen, nofun, standing⟩, nofun, lawful, advances⟩

theorem Stands.rewrapped {place : Nat} {bridge : Iteration (Logged σ α) α} {world : ω}
    (there : Stands course stands place bridge world) : Stands course stands place (.start bridge.stream) world := by
  obtain ⟨seen, -, standing⟩ := there.there
  exact .of_stream standing there.lawful there.advances

-- What a look comes to. The last thing said to the stream is the query that was answered like this; it has
-- been said just now, or else the answer is one that the bridge kept.
structure Look (setting : Setting ω) (course : Course α) (stands : Standing σ ω) (place : Nat)
    (bridge : Iteration (Logged σ α) α) (answer : Attempt (Status α)) (later : Iteration (Logged σ α) α)
    (after : ω) : Prop where
  sound : setting.sound after
  there : Stands course stands place later after
  said : ∃ earlier, later.stream.log = .asked answer :: earlier ∧ (earlier = bridge.stream.log ∨
    later.stream.log = bridge.stream.log ∧ ∃ status, answer = .ok status ∧ status.isStable = true)
  keeps : ∀ status, answer = .ok status → status.isStable = true → later.peeked = some status

theorem peek_look (plays : Plays setting source course stands) {place : Nat} {bridge : Iteration (Logged σ α) α}
    {world : ω} (there : Stands course stands place bridge world) (sound : setting.sound world) :
    ∃ answer later after, Iteration.peek (Logged.machine source) bridge world = (answer, later, after) ∧
      Look setting course stands place bridge answer later after := by
  obtain ⟨⟨stream, log⟩, peeked⟩ := bridge
  cases peeked with
  | some status =>
    obtain ⟨stable, -, last⟩ := there.keeps status rfl
    obtain ⟨earlier, written⟩ := List.head?_eq_some_iff.mp last
    refine ⟨_, _, _, rfl, sound, there, ⟨earlier, written, .inr ⟨rfl, status, rfl, stable⟩⟩, ?_⟩
    intro other same _
    cases same
    rfl
  | none =>
    obtain ⟨seen, -, standing⟩ := there.there
    have told := plays.query standing sound
    generalize asked : source.query stream world = outcome at told
    cases told with
    | @answered status stream after answers sound _ standing =>
      refine ⟨.ok status, ⟨⟨stream, .asked (.ok status) :: log⟩, if status.isStable then some status else none⟩, after,
        by simp only [Iteration.peek, Logged.query_eq asked], ?_⟩
      refine ⟨sound, ⟨⟨status.isStable, ?_, standing⟩, ?_, .asked there.lawful, there.advances⟩,
        ⟨log, rfl, .inl rfl⟩, ?_⟩
      · cases status.isStable <;> simp
      · intro other kept
        dsimp only at kept
        split at kept
        · next stable =>
          cases kept
          exact ⟨stable, answers.of_stable stable, rfl⟩
        · cases kept
      · intro other same stable
        cases same
        exact if_pos stable
    | @failed fault stream after _ sound _ standing =>
      refine ⟨.error fault, ⟨⟨stream, .asked (.error fault) :: log⟩, none⟩, after,
        by simp only [Iteration.peek, Logged.query_eq asked], ?_⟩
      refine ⟨sound, .of_stream standing (.asked there.lawful) there.advances, ⟨log, rfl, .inl rfl⟩, ?_⟩
      intro other same
      cases same

inductive Took (setting : Setting ω) (course : Course α) (stands : Standing σ ω) (place : Nat)
    (middle : Iteration (Logged σ α) α) (between : ω) :
    Attempt (Status α) → Attempt (Except Shortage α) × Iteration (Logged σ α) α × ω → Prop where
  | item {value : α} {later : Iteration (Logged σ α) α} {after : ω} (shown : course place = .ready value)
      (sound : setting.sound after) (there : Stands course stands (place + 1) later after)
      (said : later.stream.log = .advanced (.ok ()) :: middle.stream.log) :
      Took setting course stands place middle between (.ok (.ready value)) (.ok (.ok value), later, after)
  | ended : Took setting course stands place middle between (.ok .ended) (.ok (.error .exhausted), middle, between)
  | pending : Took setting course stands place middle between (.ok .pending) (.ok (.error .pending), middle, between)
  | failed {fault : Fault} :
      Took setting course stands place middle between (.error fault) (.error fault, middle, between)

theorem takeNext_took (plays : Plays setting source course stands) {place : Nat} {bridge middle : Iteration (Logged σ α) α}
    {world between : ω} {answer : Attempt (Status α)}
    (looked : Iteration.peek (Logged.machine source) bridge world = (answer, middle, between))
    (look : Look setting course stands place bridge answer middle between) :
    Took setting course stands place middle between answer (Iteration.takeNext (Logged.machine source) bridge world) := by
  rw [Iteration.takeNext, looked]
  rcases answer with fault | value | _ | _
  · exact .failed
  · obtain ⟨⟨stream, log⟩, peeked⟩ := middle
    obtain rfl : peeked = some (.ready value) := look.keeps _ rfl rfl
    obtain ⟨-, shown, last⟩ := look.there.keeps _ rfl
    obtain ⟨seen, known, standing⟩ := look.there.there
    obtain rfl := known rfl
    have passed := plays.advance standing (by rw [shown]; rfl) look.sound
    generalize advanced : source.advance stream between = outcome at passed
    cases passed with
    | @passed stream after sound _ standing =>
      have left : Stands course stands (place + 1) ⟨⟨stream, .advanced (.ok ()) :: log⟩, none⟩ after := by
        refine .of_stream standing (.advanced last look.there.lawful) ?_
        rw [List.countP_cons, look.there.advances]
        rfl
      simp only [Logged.advance_eq advanced]
      exact .item shown sound left rfl
  · exact .ended
  · exact .pending

theorem Took.tells {place : Nat} {middle : Iteration (Logged σ α) α} {between : ω} {answer : Attempt (Status α)}
    {outcome : Attempt (Except Shortage α) × Iteration (Logged σ α) α × ω}
    (took : Took setting course stands place middle between answer outcome) :
    Session.reply .taken outcome.1 = Session.reply Call.takeNext.tells answer ∧
      Session.reply Session.taking outcome.1 = Session.reply Call.next.tells answer := by
  cases took <;> exact ⟨rfl, rfl⟩

structure Called (setting : Setting ω) (course : Course α) (stands : Standing σ ω) (place : Nat)
    (bridge : Iteration (Logged σ α) α) (call : Call) (reply : Reply α) (later : Iteration (Logged σ α) α)
    (after : ω) : Prop where
  sound : setting.sound after
  there : Stands course stands (place + (item? reply).toList.length) later after
  shown : ∀ value, item? reply = some value → course place = .ready value
  said : ∃ answer earlier, reply = Session.reply call.tells answer ∧
    later.stream.log = handing reply ++ .asked answer :: earlier ∧
    (earlier = bridge.stream.log ∨ .asked answer :: earlier = bridge.stream.log ∧
      ∃ status, answer = .ok status ∧ status.isStable = true)
  keeps : ∀ status, later.stream.log.head? = some (.asked (.ok status)) → status.isStable = true →
    later.peeked = some status

theorem Look.called {place : Nat} {bridge later : Iteration (Logged σ α) α} {answer : Attempt (Status α)} {after : ω}
    (look : Look setting course stands place bridge answer later after) {call : Call}
    (nothing : item? (Session.reply call.tells answer) = none) :
    Called setting course stands place bridge call (Session.reply call.tells answer) later after := by
  obtain ⟨earlier, written, fresh⟩ := look.said
  refine ⟨look.sound, ?_, ?_, ⟨answer, earlier, rfl, ?_, ?_⟩, ?_⟩
  · rw [nothing]
    exact look.there
  · intro value item
    rw [nothing] at item
    cases item
  · rw [handing, nothing]
    exact written
  · rw [written] at fresh
    exact fresh
  · intro status last stable
    rw [written] at last
    cases last
    exact look.keeps status rfl stable

theorem Took.called {place : Nat} {bridge middle : Iteration (Logged σ α) α} {answer : Attempt (Status α)} {between : ω}
    {outcome : Attempt (Except Shortage α) × Iteration (Logged σ α) α × ω}
    (look : Look setting course stands place bridge answer middle between)
    (took : Took setting course stands place middle between answer outcome) {call : Call}
    {form : Except Shortage α → Reply α} (forms : ∀ result, item? (form result) = result.toOption)
    (tells : Session.reply form outcome.1 = Session.reply call.tells answer) :
    Called setting course stands place bridge call (Session.reply form outcome.1) outcome.2.1 outcome.2.2 := by
  cases took with
  | @item value later after shown sound there said =>
    obtain ⟨earlier, written, fresh⟩ := look.said
    have hands : item? (Session.reply form (.ok (.ok value))) = some value := forms (.ok value)
    refine ⟨sound, ?_, ?_, ⟨_, earlier, tells, ?_, ?_⟩, ?_⟩
    · rw [hands]
      exact there
    · intro value item
      rw [hands] at item
      cases item
      exact shown
    · rw [handing, hands, said, written]
      rfl
    · rw [written] at fresh
      exact fresh
    · intro status last
      rw [said] at last
      cases last
  | ended => exact tells ▸ look.called (tells ▸ forms (.error .exhausted))
  | pending => exact tells ▸ look.called (tells ▸ forms (.error .pending))
  | failed => exact look.called rfl

theorem run_called (plays : Plays setting source course stands) {place : Nat} {bridge later : Iteration (Logged σ α) α}
    {world after : ω} {reply : Reply α} {call : Call} (there : Stands course stands place bridge world)
    (sound : setting.sound world) (run : call.run (Logged.machine source) bridge world = (reply, later, after)) :
    Called setting course stands place bridge call reply later after := by
  obtain ⟨answer, middle, between, looked, look⟩ := peek_look plays there sound
  have took := takeNext_took plays looked look
  unfold Call.run replied at run
  cases call with
  | hasNext =>
    simp only [looked] at run
    cases run
    exact look.called (by cases answer <;> rfl)
  | isPending =>
    simp only [looked] at run
    cases run
    exact look.called (by cases answer <;> rfl)
  | peek =>
    simp only [looked] at run
    cases run
    exact look.called (by cases answer <;> rfl)
  | takeNext =>
    cases run
    exact took.called look (fun _ => rfl) took.tells.1
  | next =>
    cases run
    exact took.called look (fun _ => rfl) took.tells.2

theorem Called.shortage {place : Nat} {bridge later : Iteration (Logged σ α) α} {reply : Reply α} {after : ω}
    (called : Called setting course stands place bridge .takeNext reply later after) :
    (reply = .taken (.error .exhausted) ↔ later.stream.log.head? = some (.asked (.ok .ended))) ∧
      (reply = .taken (.error .exhausted) → course place = .ended) ∧
      (reply = .taken (.error .pending) ↔ later.stream.log = .asked (.ok .pending) :: bridge.stream.log) := by
  obtain ⟨answer, earlier, rfl, said, fresh⟩ := called.said
  rcases answer with fault | value | _ | _
  · rw [said]
    simp [Session.reply, handing, item?]
  · rw [said]
    simp [Session.reply, Call.tells, handing, item?, Except.toOption]
  · have known := called.keeps .ended (by rw [said]; rfl) rfl
    have ended : course place = .ended := (called.there.keeps .ended known).2.1
    rw [said]
    simp [Session.reply, Call.tells, handing, item?, Except.toOption, ended]
  · have asked : earlier = bridge.stream.log := by
      rcases fresh with asked | ⟨-, status, same, stable⟩
      · exact asked
      · cases same
        cases stable
    rw [said, asked]
    simp [Session.reply, Call.tells, handing, item?, Except.toOption]

theorem run_known (plays : Plays setting source course stands) {place : Nat} {bridge later : Iteration (Logged σ α) α}
    {world after : ω} {call : Call} {reply : Reply α} {status : Status α} (known : bridge.peeked = some status)
    (there : Stands course stands place bridge world) (sound : setting.sound world)
    (run : call.run (Logged.machine source) bridge world = (reply, later, after)) :
    later.stream.log = handing reply ++ bridge.stream.log ∧ (item? reply = none → later = bridge) := by
  obtain ⟨answer, middle, between, looked, look⟩ := peek_look plays there sound
  have took := takeNext_took plays looked look
  obtain rfl : bridge = middle := by
    obtain ⟨stream, peeked⟩ := bridge
    obtain rfl : peeked = some status := known
    cases looked
    rfl
  cases call with
  | hasNext | isPending | peek =>
    simp only [Call.run, replied, looked] at run
    cases run
    cases answer <;> exact ⟨rfl, fun _ => rfl⟩
  | takeNext | next =>
    simp only [Call.run, replied] at run
    generalize Iteration.takeNext (Logged.machine source) bridge world = outcome at took run
    cases took with
    | item _ _ _ said =>
      cases run
      exact ⟨said, nofun⟩
    | ended | pending | failed =>
      cases run
      exact ⟨rfl, fun _ => rfl⟩

structure Invariant (setting : Setting ω) (course : Course α) (stands : Standing σ ω) (now : State ω σ α) : Prop where
  sound : setting.sound now.world
  begins : course.Begins now.items
  bridge : Stands course stands now.items.length now.bridge now.world

variable {now later : State ω σ α} {event : Event α}

theorem start_invariant {state : σ} {world : ω} (there : stands 0 false state world) (sound : setting.sound world) :
    Invariant setting course stands (.start state world) :=
  ⟨sound, nofun, .of_stream there .start rfl⟩

theorem Invariant.step (plays : Plays setting source course stands) (invariant : Invariant setting course stands now)
    (next : Step setting source now event later) : Invariant setting course stands later := by
  cases next with
  | @called call reply bridge world run =>
    have called := run_called plays invariant.bridge invariant.sound run
    have there := called.there
    rw [← List.length_append] at there
    refine ⟨called.sound, ?_, there⟩
    cases handed : item? reply with
    | none =>
      rw [Option.toList_none, List.append_nil]
      exact invariant.begins
    | some value => exact invariant.begins.append (called.shown value handed)
  | rewrapped => exact ⟨invariant.sound, invariant.begins, invariant.bridge.rewrapped⟩
  | elsewhere moved sound => exact ⟨sound, invariant.begins, invariant.bridge.kept (plays.stays moved)⟩

theorem Invariant.reached (plays : Plays setting source course stands) (invariant : Invariant setting course stands now)
    (reached : Reached (Step setting source) now later) : Invariant setting course stands later :=
  reached.invariant invariant fun next held => held.step plays next

theorem Invariant.waited (plays : Plays setting source course stands) (invariant : Invariant setting course stands now)
    {status : Status α} (known : now.bridge.peeked = some status) (waited : Reached (Waits setting source) now later) :
    later.bridge = now.bridge ∧ Invariant setting course stands later := by
  refine waited.invariant ⟨rfl, invariant⟩ fun next before => ?_
  obtain ⟨still, held⟩ := before
  obtain ⟨next, same, nothing⟩ := next
  refine ⟨?_, held.step plays next⟩
  cases next with
  | called run =>
    rw [← still] at known ⊢
    exact (run_known plays known held.bridge held.sound run).2 nothing
  | rewrapped => cases same
  | elsewhere => exact still

theorem Step.items (next : Step setting source now event later) : later.items = now.items ++ event.item?.toList := by
  cases next with
  | called => rfl
  | rewrapped | elsewhere => exact (List.append_nil _).symm

theorem Invariant.items_eq {s : Stream'.Seq α} (invariant : Invariant setting (.ofAnswers s.get?) stands now)
    {place : Nat} (inside : place < now.items.length) : now.items[place]? = s.get? place := by
  have found : now.items[place]? = some now.items[place] := List.getElem?_eq_getElem inside
  rw [found, Iterated.answer_eq_ready.mp (invariant.begins place _ found)]

theorem Invariant.item {s : Stream'.Seq α} (plays : Plays setting source (.ofAnswers s.get?) stands)
    (invariant : Invariant setting (.ofAnswers s.get?) stands now) (next : Step setting source now event later) {value : α}
    (handed : event.item? = some value) : s.get? now.items.length = some value := by
  have found : later.items[now.items.length]? = some value := by
    rw [next.items, handed]
    exact List.getElem?_concat_length
  rw [← (invariant.step plays next).items_eq (List.getElem?_eq_some_iff.mp found).1, found]

-- Through however many bridges and whatever is called on them: what is taken is the front of the sequence,
-- the stream has been moved past each element of it once and right after it showed it, and a call says no
-- more to the stream than one query and one advance. Of these the query is left out while the bridge keeps a
-- stable answer, and the advance where no element is handed over.
theorem bridges_take_each_element_once {s : Stream'.Seq α} (plays : Plays setting source (.ofAnswers s.get?) stands)
    {state : σ} {world : ω} (starts : stands 0 false state world) (sound : setting.sound world)
    (reached : Reached (Step setting source) (.start state world) now) :
    (∀ place < now.items.length, now.items[place]? = s.get? place) ∧
    now.advances = now.items.length ∧ Exchange.Lawful now.log ∧
    ∀ event later, Step setting source now event later →
      later.items = now.items ++ event.item?.toList ∧ later.advances = now.advances + event.item?.toList.length ∧
      (∀ value, event.item? = some value → s.get? now.items.length = some value) ∧
      ∀ call reply, event = .called call reply →
        (∃ answer earlier, reply = Session.reply call.tells answer ∧ later.log = handing reply ++ .asked answer :: earlier ∧
          (earlier = now.log ∨ .asked answer :: earlier = now.log ∧ ∃ status, answer = .ok status ∧ status.isStable = true)) ∧
        (call = .takeNext →
          (reply = .taken (.error .exhausted) ↔ later.log.head? = some (.asked (.ok .ended))) ∧
          (reply = .taken (.error .exhausted) → s.get? now.items.length = none) ∧
          (reply = .taken (.error .pending) ↔ later.log = .asked (.ok .pending) :: now.log)) ∧
        ∀ status, later.log.head? = some (.asked (.ok status)) → status.isStable = true →
          ∀ last, Reached (Waits setting source) later last → last.log = later.log ∧
            ∀ call reply after, Step setting source last (.called call reply) after →
              after.log = handing reply ++ later.log := by
  have invariant := (start_invariant starts sound).reached plays reached
  refine ⟨fun place inside => invariant.items_eq inside, invariant.bridge.advances, invariant.bridge.lawful, ?_⟩
  intro event later next
  have after := invariant.step plays next
  refine ⟨next.items, ?_, fun value handed => invariant.item plays next handed, ?_⟩
  · have count : later.advances = later.items.length := after.bridge.advances
    have before : now.advances = now.items.length := invariant.bridge.advances
    rw [count, before, next.items, List.length_append]
  · rintro call reply rfl
    cases next with
    | called run =>
      have called := run_called plays invariant.bridge invariant.sound run
      obtain ⟨answer, earlier, told, said, fresh⟩ := called.said
      refine ⟨⟨answer, earlier, told, said, fresh⟩, ?_, ?_⟩
      · rintro rfl
        obtain ⟨ended, nothing, pending⟩ := called.shortage
        exact ⟨ended, fun short => Iterated.answer_eq_ended.mp (nothing short), pending⟩
      · intro status last stable further waited
        have known := called.keeps status last stable
        obtain ⟨still, invariant⟩ := after.waited plays known waited
        refine ⟨congrArg (·.stream.log) still, ?_⟩
        intro call reply after next
        cases next with
        | called run =>
          have known : further.bridge.peeked = some status := still ▸ known
          have said := (run_known plays known invariant.bridge invariant.sound run).1
          rw [still] at said
          exact said

section Gating
open Sharing (pair pair_plays pair_starts)

abbrev Next := Step (Setting.idle Bool) pair

-- The first element is seen through a bridge and left there, seen through a second one, and taken from that one
-- though the gate has closed again. The second one is taken in one call, once the gate is open.
theorem pair_through_two_bridges : ∃ now : State Bool (Iterated Nat Nat) Nat,
    Reached (Step (Setting.idle Bool) pair) (.start (.start 0) false) now ∧ now.items = [7, 9] ∧
      now.log = [.asked (.ok .ended), .advanced (.ok ()), .asked (.ok (.ready 9)), .asked (.ok .pending),
        .advanced (.ok ()), .asked (.ok (.ready 7)), .asked (.ok (.ready 7)), .asked (.ok .pending)] ∧
      (∀ place < now.items.length, now.items[place]? = (Stream'.Seq.ofList [7, 9]).get? place) ∧
      now.advances = now.items.length ∧ Exchange.Lawful now.log := by
  let waited : List (Exchange Nat) := [.asked (.ok .pending)]
  let shown : List (Exchange Nat) := .asked (.ok (.ready 7)) :: waited
  let again : List (Exchange Nat) := .asked (.ok (.ready 7)) :: shown
  let passed : List (Exchange Nat) := .advanced (.ok ()) :: again
  let between : List (Exchange Nat) := .asked (.ok .pending) :: passed
  let both : List (Exchange Nat) := .advanced (.ok ()) :: .asked (.ok (.ready 9)) :: between
  have tried : Next (.start (.start 0) false) (.called .takeNext (.taken (.error .pending)))
      ⟨⟨⟨.start 0, waited⟩, none⟩, false, []⟩ := .called rfl
  have opened : Next ⟨⟨⟨.start 0, waited⟩, none⟩, false, []⟩ .elsewhere ⟨⟨⟨.start 0, waited⟩, none⟩, true, []⟩ :=
    .elsewhere trivial trivial
  have seen : Next ⟨⟨⟨.start 0, waited⟩, none⟩, true, []⟩ (.called .hasNext (.flag true))
      ⟨⟨⟨⟨1, some (some 7)⟩, shown⟩, some (.ready 7)⟩, true, []⟩ := .called rfl
  have wrapped : Next ⟨⟨⟨⟨1, some (some 7)⟩, shown⟩, some (.ready 7)⟩, true, []⟩ .rewrapped
      ⟨⟨⟨⟨1, some (some 7)⟩, shown⟩, none⟩, true, []⟩ := .rewrapped
  have peeked : Next ⟨⟨⟨⟨1, some (some 7)⟩, shown⟩, none⟩, true, []⟩ (.called .peek (.status (.ready 7)))
      ⟨⟨⟨⟨1, some (some 7)⟩, again⟩, some (.ready 7)⟩, true, []⟩ := .called rfl
  have closed : Next ⟨⟨⟨⟨1, some (some 7)⟩, again⟩, some (.ready 7)⟩, true, []⟩ .elsewhere
      ⟨⟨⟨⟨1, some (some 7)⟩, again⟩, some (.ready 7)⟩, false, []⟩ := .elsewhere trivial trivial
  have seven : Next ⟨⟨⟨⟨1, some (some 7)⟩, again⟩, some (.ready 7)⟩, false, []⟩ (.called .takeNext (.taken (.ok 7)))
      ⟨⟨⟨⟨1, none⟩, passed⟩, none⟩, false, [7]⟩ := .called rfl
  have nothing : Next ⟨⟨⟨⟨1, none⟩, passed⟩, none⟩, false, [7]⟩ (.called .next (.element none))
      ⟨⟨⟨⟨1, none⟩, between⟩, none⟩, false, [7]⟩ := .called rfl
  have reopened : Next ⟨⟨⟨⟨1, none⟩, between⟩, none⟩, false, [7]⟩ .elsewhere
      ⟨⟨⟨⟨1, none⟩, between⟩, none⟩, true, [7]⟩ := .elsewhere trivial trivial
  have nine : Next ⟨⟨⟨⟨1, none⟩, between⟩, none⟩, true, [7]⟩ (.called .next (.element (some 9)))
      ⟨⟨⟨⟨2, none⟩, both⟩, none⟩, true, [7, 9]⟩ := .called rfl
  have exhausted : Next ⟨⟨⟨⟨2, none⟩, both⟩, none⟩, true, [7, 9]⟩ (.called .takeNext (.taken (.error .exhausted)))
      ⟨⟨⟨⟨3, some none⟩, .asked (.ok .ended) :: both⟩, some .ended⟩, true, [7, 9]⟩ := .called rfl
  have first : Reached Next (.start (.start 0) false) ⟨⟨⟨⟨1, none⟩, passed⟩, none⟩, false, [7]⟩ :=
    ((((((Reached.start.step tried).step opened).step seen).step wrapped).step peeked).step closed).step seven
  have reached := (((first.step nothing).step reopened).step nine).step exhausted
  obtain ⟨front, advances, lawful, -⟩ := bridges_take_each_element_once pair_plays pair_starts trivial reached
  exact ⟨_, reached, rfl, rfl, front, advances, lawful⟩

end Gating

end Taking
end LightestFirst
