import LightestFirst.Proofs.Networks.StreamsPlay
import LightestFirst.Proofs.Networks.HandleInvariants
-- Conversations with a network of buffers that may read one another and themselves. In whatever order
-- its readers are asked and advanced, each buffer fills up with the front of the same sequence.
namespace LightestFirst
variable {α : Type}

namespace Session

def opening (sources : List (String × Recipe α)) : List (Step α) :=
  sources.map fun source => .define source.1 (.multiplexed source.2)

def Reads : Step α → Prop
  | .query _ => True
  | .advance _ => True
  | .inspect _ => True
  | .addView _ _ => True
  | .fork _ _ => True
  | .drop _ => True
  | .buffered _ => True
  | .exhausted _ => True
  | .position _ => True
  | _ => False

end Session

namespace Buffered
variable {σ τ : Type} {course : Course α} {first : Buffered σ α} {second : Buffered τ α}

theorem Holds.front (holds : Holds course first) (also : Holds course second)
    (shorter : first.buffer.size ≤ second.buffer.size) : first.buffer.toList <+: second.buffer.toList := by
  rw [List.prefix_iff_getElem?]
  intro place inside
  have here : place < first.buffer.size := by simpa using inside
  have there : place < second.buffer.size := Nat.lt_of_lt_of_le here shorter
  have one : course place = .ready first.buffer[place] := holds.elements (Array.getElem?_eq_getElem here)
  have other : course place = .ready second.buffer[place] := also.elements (Array.getElem?_eq_getElem there)
  rw [one, Status.ready.injEq] at other
  rw [Array.getElem?_toList, Array.getElem?_eq_getElem there, Array.getElem_toList, other]

theorem Holds.complete_longest (holds : Holds course first) (also : Holds course second) (ended : first.ended = true) :
    second.buffer.size ≤ first.buffer.size := by
  by_contra longer
  have there : first.buffer.size < second.buffer.size := Nat.lt_of_not_le longer
  have more := also.elements (Array.getElem?_eq_getElem there)
  rw [holds.complete ended] at more
  cases more

end Buffered

def Stream.reading (main : Bool) (cell : Nat) (reader : Reader) : Stream α :=
  match main with
  | true => .multiplexer cell reader
  | false => .view cell reader

namespace Network

section Conversations
variable {sound : Network α → Prop} {fits : Handle α → Network α → Prop} {network : Network α}
variable {machine : Machine (Network α) (Stream α) α} (ignoring : IgnoresHandles sound fits)
variable (queries : Keeps sound fits .stream machine.query) (advances : Keeps sound fits .stream machine.advance)
variable (views : ∀ {stream made network}, fits (.stream stream) network → Session.viewOf? stream = some made →
  fits (.stream made) network)
variable (copies : ∀ {stream made network}, fits (.stream stream) network → Session.copyOf? stream = some made →
  fits (.stream made) network)
include ignoring queries advances views copies

theorem AllFit.reads {step : Step α} (reads : Session.Reads step) (allFit : AllFit sound fits network) :
    AllFit sound fits (Session.step machine step network).2 := by
  cases step with
  | query handle => exact allFit.onHandle ignoring queries
  | inspect handle => exact allFit.onHandle ignoring queries
  | advance handle => exact allFit.onHandle ignoring advances
  | addView multiplexer view => exact allFit.derive ignoring views
  | fork view copy => exact allFit.derive ignoring copies
  | buffered multiplexer => exact allFit.observe
  | exhausted multiplexer => exact allFit.observe
  | position view => exact allFit.observe
  | drop handle =>
    rw [Session.step]
    split
    · exact allFit
    · exact allFit.erase ignoring handle
  | _ => exact reads.elim

theorem AllFit.conversation {said : List (Step α)} (reads : ∀ step ∈ said, Session.Reads step)
    (allFit : AllFit sound fits network) : AllFit sound fits (Session.steps machine network said).2 := by
  induction said generalizing network with
  | nil => exact allFit
  | cons first rest ih =>
    have next := allFit.reads ignoring queries advances views copies (reads first (List.mem_cons_self ..))
    exact ih (fun step among => reads step (List.mem_cons_of_mem _ among)) next

end Conversations

def bufferOf? (network : Network α) (name : String) : Option (Buffered (Option (Stream α)) α) :=
  (network.multiplexers.get? name).bind (network.cells[·]?)

def Lists (names : Table Nat) (keys : List String) : Prop :=
  ∀ {name cell}, names.get? name = some cell ↔ keys[cell]? = some name

def Fresh (keys : List String) (source : Recipe α) (stream : Stream α) : Prop :=
  ∀ (names : Table Nat) (courses : Nat → Course α) (world : Network α), Lists names keys →
    source.Stands names courses 0 false stream world

-- So many of the buffers have been defined, and nothing has been asked of any yet.
structure Opened (keys : List String) (built : List (Recipe α)) (network : Network α) : Prop where
  count : network.cells.size = built.length
  names : ∀ {name cell}, network.multiplexers.get? name = some cell ↔ cell < built.length ∧ keys[cell]? = some name
  cells : ∀ {cell : Nat} {source : Recipe α}, built[cell]? = some source →
    ∃ stream, network.cells[cell]? = some (Buffered.start (some stream)) ∧ Fresh keys source stream
  handles : ∀ {name held}, network.handles.get? name = some held → ∃ cell, held = .stream (.multiplexer cell .start)

theorem blank_opened (keys : List String) : Opened keys [] (blank (α := α)) :=
  ⟨rfl, ⟨nofun, nofun⟩, nofun, nofun⟩

-- A name that is known already is known for good: the stream built now is the one that the complete
-- table calls for.
theorem build_fresh {keys : List String} {network after : Network α} {source : Recipe α} {stream : Stream α}
    (known : ∀ {name cell}, network.multiplexers.get? name = some cell → keys[cell]? = some name)
    (confined : source.Confined keys) (built : source.build 0 network = (.ok stream, after)) :
    after = network ∧ Fresh keys source stream := by
  have builds : ∀ (names : Table Nat) (courses : Nat → Course α), (∀ {name cell},
      network.multiplexers.get? name = some cell → names.get? name = some cell) →
      Recipe.Built keys names courses source network (.ok stream, after) :=
    fun names courses agree => built ▸ Recipe.build_built agree 0 confined
  constructor
  · cases builds network.multiplexers (fun _ _ => .pending) id with
    | made => rfl
  · intro names courses world lists
    cases builds names courses fun found => lists.mpr (known found) with
    | made there => exact there world

theorem define_eq {keys : List String} {built : List (Recipe α)} {network after : Network α} {name : String}
    {source : Recipe α} (opened : Opened keys built network) (confined : source.Confined keys)
    (defined : Session.define name (.multiplexed source) network = (.done, after)) :
    ∃ stream, Fresh keys source stream ∧ after =
      { network with
        cells := network.cells.push (.start (some stream))
        multiplexers := network.multiplexers.put name built.length
        handles := network.handles.put name (.stream (.multiplexer built.length .start)) } := by
  simp only [Session.define, Recipe.build] at defined
  cases building : source.build 0 network with
  | mk result world =>
    rw [building] at defined
    cases result with
    | error fault => cases defined
    | ok stream =>
      obtain ⟨rfl, fresh⟩ := build_fresh (fun known => (opened.names.mp known).2) confined building
      cases defined
      refine ⟨stream, fresh, ?_⟩
      rw [← opened.count]
      rfl

theorem Opened.define {keys : List String} {built : List (Recipe α)} {network after : Network α} {name : String}
    {source : Recipe α} (opened : Opened keys built network) (distinct : keys.Nodup)
    (confined : source.Confined keys) (here : keys[built.length]? = some name)
    (defined : Session.define name (.multiplexed source) network = (.done, after)) :
    Opened keys (built ++ [source]) after := by
  obtain ⟨stream, fresh, rfl⟩ := define_eq opened confined defined
  refine ⟨by simp [opened.count], ?_, ?_, ?_⟩
  · intro other cell
    rw [List.length_append, List.length_singleton]
    by_cases called : other = name
    · subst called
      rw [Table.get?_put_self, Option.some.injEq]
      constructor
      · rintro rfl
        exact ⟨Nat.lt_succ_self _, here⟩
      · rintro ⟨_, found⟩
        exact (List.getElem?_inj (List.getElem?_eq_some_iff.mp here).1 distinct).mp (here.trans found.symm)
    · rw [Table.get?_put_of_ne _ _ called]
      refine opened.names.trans (and_congr_left fun found => ⟨Nat.lt_succ_of_lt, fun inside => ?_⟩)
      rcases Nat.lt_succ_iff_lt_or_eq.mp inside with earlier | rfl
      · exact earlier
      · exact absurd (Option.some.inj (found.symm.trans here)) called
  · intro cell recipe found
    rw [Array.getElem?_push, opened.count]
    split
    · next last =>
      subst last
      rw [List.getElem?_concat_length] at found
      cases found
      exact ⟨stream, rfl, fresh⟩
    · next away =>
      have inside : cell < built.length + 1 := by simpa using (List.getElem?_eq_some_iff.mp found).1
      rw [List.getElem?_append_left (by omega)] at found
      exact opened.cells found
  · intro other held found
    rcases Table.get?_of_put found with rfl | before
    · exact ⟨_, rfl⟩
    · exact opened.handles before

theorem Opened.opening {keys : List String} {machine : Machine (Network α) (Stream α) α} (distinct : keys.Nodup)
    {rest : List (String × Recipe α)} {built : List (Recipe α)} {network after : Network α} {replies : List (Reply α)}
    (opened : Opened keys built network) (remain : keys.drop built.length = rest.map Prod.fst)
    (confined : ∀ source ∈ rest, source.2.Confined keys)
    (met : Session.steps machine network (Session.opening rest) = (replies, after))
    (done : ∀ reply ∈ replies, reply = .done) : Opened keys (built ++ rest.map Prod.snd) after := by
  induction rest generalizing built network replies with
  | nil =>
    cases met
    rwa [List.map_nil, List.append_nil]
  | cons first rest ih =>
    obtain ⟨name, source⟩ := first
    cases defined : Session.define name (.multiplexed source) network with
    | mk answer world =>
      cases later : Session.steps machine world (Session.opening rest) with
      | mk answers final =>
        simp only [Session.opening] at later
        simp only [Session.opening, List.map_cons, Session.steps, Session.step, defined, later] at met
        cases met
        obtain rfl := done answer (List.mem_cons_self ..)
        have here : keys[built.length]? = some name := by
          rw [← Nat.add_zero built.length, ← List.getElem?_drop, remain]
          rfl
        have remain : keys.drop (built ++ [source]).length = rest.map Prod.fst := by
          rw [List.length_append, List.length_singleton, ← List.tail_drop, remain]
          rfl
        have next := opened.define distinct (confined _ (List.mem_cons_self ..)) here defined
        have all := ih next remain (fun source among => confined source (List.mem_cons_of_mem _ among)) later
          fun reply among => done reply (List.mem_cons_of_mem _ among)
        rwa [List.append_assoc] at all

def Reads (web : Web α) (stream : Stream α) (network : Network α) : Prop := ∃ main cell place seen,
  Stream.Placed (Stream.reading main cell) (Reader.Stands (web.cells cell) (·.sizeOf cell)) place seen stream network

-- Nothing but readers is at hand, and no source is running.
structure Reading (web : Web α) (network : Network α) : Prop where
  sound : Sound web ∅ network
  handles : ∀ {name held}, network.handles.get? name = some held →
    ∃ stream, held = .stream stream ∧ Reads web stream network

inductive Called {β : Type} (web : Web α) (network : Network α) : Attempt β × Stream α × Network α → Prop where
  | called {result : Attempt β} {stream : Stream α} {after : Network α} (sound : Sound web ∅ after)
      (moved : Moved ∅ network after) (reads : Reads web stream after) : Called web network (result, stream, after)

section Conversation
variable {web : Web α} {network after : Network α} {stream : Stream α}

theorem Reads.kept (reads : Reads web stream network) (grown : ∀ cell, network.sizeOf cell ≤ after.sizeOf cell) :
    Reads web stream after := by
  obtain ⟨main, cell, place, seen, there⟩ := reads
  exact ⟨main, cell, place, seen, Recipe.placed_kept (Reader.kept (grown cell)) there⟩

theorem reads_start (web : Web α) (main : Bool) (cell : Nat) (network : Network α) :
    Reads web (.reading main cell .start) network :=
  ⟨main, cell, 0, false, .start, rfl, rfl, Nat.zero_le _, nofun, nofun⟩

theorem Opened.reading {keys : List String} {built : List (Recipe α)} (opened : Opened keys built network)
    (all : keys.length = built.length) (courses : Nat → Course α) :
    Reading ⟨network.multiplexers, built, courses⟩ network := by
  have lists : Lists network.multiplexers keys := by
    intro name cell
    refine opened.names.trans ⟨fun known => known.2, fun found => ⟨?_, found⟩⟩
    rw [← all]
    exact (List.getElem?_eq_some_iff.mp found).1
  have started : ∀ {cell : Nat} {shared : Buffered (Option (Stream α)) α}, network.cells[cell]? = some shared →
      ∃ source stream, built[cell]? = some source ∧ shared = .start (some stream) ∧ Fresh keys source stream := by
    intro cell shared there
    have inside : cell < built.length := opened.count ▸ (Array.getElem?_eq_some_iff.mp there).1
    have listed := List.getElem?_eq_getElem inside
    obtain ⟨stream, found, fresh⟩ := opened.cells listed
    exact ⟨_, stream, listed, Option.some.inj (there.symm.trans found), fresh⟩
  refine ⟨⟨rfl, opened.count, fun there => ?_, fun _ among => absurd among (Finset.notMem_empty _), fun there _ => ?_⟩, ?_⟩
  · obtain ⟨source, stream, _, rfl, _⟩ := started there
    exact ⟨fun found => by simp [Buffered.start] at found, nofun, nofun⟩
  · obtain ⟨source, stream, listed, rfl, fresh⟩ := started there
    exact ⟨source, stream, listed, rfl, false, fresh _ _ _ lists⟩
  · intro name held found
    obtain ⟨cell, rfl⟩ := opened.handles found
    exact ⟨_, rfl, reads_start _ true cell network⟩

variable {known : List String} (definitions : Definitions α) {depth : Nat}

theorem outer_plays (closed : web.Closed known) (deep : web.deep ∅ 0 ≤ depth) (main : Bool) (cell : Nat) :
    Plays (setting web ∅) (Stream.machine definitions (depth + 1)) (web.cells cell)
      (Stream.Placed (Stream.reading main cell) (Reader.Stands (web.cells cell) (·.sizeOf cell))) := by
  have reader : Plays (setting web ∅) (Reader.machine (Stream.readCell (Stream.machine definitions depth) cell))
      (web.cells cell) (Reader.Stands (web.cells cell) (·.sizeOf cell)) := by
    refine reader_plays fun source listed apart => ?_
    rw [← closed.solved listed]
    exact recipe_plays closed (closed.confined source (List.mem_of_getElem? listed))
      (Nat.lt_of_lt_of_le (Web.deep_insert listed apart) deep)
  exact Stream.placed_plays reader (fun _ _ => by cases main <;> rfl) fun _ _ => by cases main <;> rfl

theorem query_called (closed : web.Closed known) (deep : web.deep ∅ 0 ≤ depth) (sound : Sound web ∅ network)
    (reads : Reads web stream network) :
    Called web network ((Stream.machine definitions (depth + 1)).query stream network) := by
  obtain ⟨main, cell, place, seen, there⟩ := reads
  have told := (outer_plays definitions closed deep main cell).query there sound
  generalize (Stream.machine definitions (depth + 1)).query stream network = outcome at told ⊢
  cases told with
  | answered _ sound moved there => exact .called sound moved ⟨main, cell, place, _, there⟩
  | failed _ sound moved there => exact .called sound moved ⟨main, cell, place, _, there⟩

theorem advance_called (sound : Sound web ∅ network) (reads : Reads web stream network) :
    Called web network ((Stream.machine definitions (depth + 1)).advance stream network) := by
  obtain ⟨main, cell, place, seen, reader, rfl, rfl, behind, inside, _⟩ := reads
  have stays : Moved ∅ network network := (setting web ∅).stays network
  have call : (Stream.machine definitions (depth + 1)).advance (.reading main cell reader) network =
      Machine.within (.reading main cell) (reader.advance network) := by cases main <;> rfl
  rw [call, Reader.advance]
  split
  · next observed =>
    have fresh : Reads web (.reading main cell ⟨reader.index + 1, false⟩) network :=
      ⟨main, cell, _, false, _, rfl, rfl, inside observed, (fun same => by cases same), fun same => by cases same⟩
    exact .called sound stays fresh
  · exact .called sound stays ⟨main, cell, _, false, _, rfl, rfl, behind, inside, fun same => by cases same⟩

theorem Reading.moved (reading : Reading web network) (sound : Sound web ∅ after) (moved : Moved ∅ network after) :
    Reading web after := by
  refine ⟨sound, fun found => ?_⟩
  obtain ⟨stream, rfl, reads⟩ := reading.handles (moved.handles ▸ found)
  exact ⟨stream, rfl, reads.kept moved.grown⟩

def Attends (web : Web α) (held : Handle α) (network : Network α) : Prop :=
  ∃ stream, held = .stream stream ∧ Reads web stream network

theorem reading_iff_allFit : Reading web network ↔ AllFit (Sound web ∅) (Attends web) network :=
  ⟨fun reading => ⟨reading.sound, reading.handles⟩, fun allFit => ⟨allFit.sound, allFit.handles⟩⟩

theorem attends_ignoresHandles (web : Web α) : IgnoresHandles (Sound web ∅) (Attends web) where
  sound _ sound := sound.of_cells rfl rfl
  fits := fun _ ⟨stream, same, reads⟩ => ⟨stream, same, reads.kept fun _ => Nat.le_refl _⟩

theorem Called.keeps {β : Type} {call : Stream α → Network α → Attempt β × Stream α × Network α}
    (calls : ∀ {stream network}, Sound web ∅ network → Reads web stream network → Called web network (call stream network)) :
    Keeps (Sound web ∅) (Attends web) .stream call := by
  intro stream network allFit attends
  obtain ⟨_, ⟨⟩, reads⟩ := attends
  have outcome := calls allFit.sound reads
  generalize call stream network = told at outcome
  cases outcome with
  | called sound moved reads =>
    exact ⟨reading_iff_allFit.mp ((reading_iff_allFit.mpr allFit).moved sound moved), _, rfl, reads⟩

theorem viewOf_reads {made : Stream α} (from_ : Session.viewOf? stream = some made) : Reads web made network := by
  cases stream <;> cases from_
  exact reads_start web false _ network

theorem copyOf_reads {made : Stream α} (reads : Reads web stream network) (from_ : Session.copyOf? stream = some made) :
    Reads web made network := by
  cases stream <;> cases from_
  exact reads

theorem Reading.steps (closed : web.Closed known) (deep : web.deep ∅ 0 ≤ depth) (reading : Reading web network)
    {conversation : List (Step α)} (reads : ∀ step ∈ conversation, Session.Reads step) :
    Reading web (Session.steps (Stream.machine definitions (depth + 1)) network conversation).2 := by
  refine reading_iff_allFit.mpr (AllFit.conversation (attends_ignoresHandles web)
    (Called.keeps (query_called definitions closed deep)) (Called.keeps (advance_called definitions)) ?_ ?_ reads
    (reading_iff_allFit.mp reading))
  · rintro _ made network ⟨stream, ⟨⟩, _⟩ from_
    exact ⟨made, rfl, viewOf_reads from_⟩
  · rintro _ made network ⟨stream, ⟨⟩, reads⟩ from_
    exact ⟨made, rfl, copyOf_reads reads from_⟩

end Conversation

theorem Reading.bufferOf {web : Web α} {network : Network α} {name : String} {cell : Nat} (reading : Reading web network)
    (named : web.names.get? name = some cell) (inside : cell < web.sources.length) :
    ∃ shared, network.bufferOf? name = some shared ∧ Buffered.Holds (web.cells cell) shared := by
  have within : cell < network.cells.size := reading.sound.count ▸ inside
  have there : network.cells[cell]? = some network.cells[cell] := Array.getElem?_eq_getElem within
  exact ⟨_, by rw [bufferOf?, reading.sound.named, named, Option.bind_some, there], reading.sound.holds there⟩

-- Buffers that may read one another are defined once, and then their readers are called in one order
-- and in another. Wherever either conversation has got to, what a buffer holds in the one is the front
-- of what it holds in the other, and a buffer that is complete in one of them holds no less there. A
-- source that was found running has put an element off and exchanged none. Calls stand in one another
-- no deeper than one tree of each source does, and so many levels are followed.
theorem schedules_fill_buffers_alike {sources : List (String × Recipe α)} {definitions : Definitions α}
    {levels : Nat} {replies : List (Reply α)} {network : Network α} (distinct : (sources.map Prod.fst).Nodup)
    (confined : ∀ source ∈ sources, source.2.Confined (sources.map Prod.fst))
    (deep : (Recipe.tallest (sources.map Prod.snd) + 1) * sources.length < levels)
    (met : Session.steps (Stream.machine definitions levels) .blank (Session.opening sources) = (replies, network))
    (done : ∀ reply ∈ replies, reply = .done) {one other : List (Step α)}
    (reads : ∀ step ∈ one, Session.Reads step) (others : ∀ step ∈ other, Session.Reads step)
    {name : String} (listed : name ∈ sources.map Prod.fst) :
    ∃ first second : Buffered (Option (Stream α)) α,
      (Session.steps (Stream.machine definitions levels) network one).2.bufferOf? name = some first ∧
      (Session.steps (Stream.machine definitions levels) network other).2.bufferOf? name = some second ∧
      (first.buffer.toList <+: second.buffer.toList ∨ second.buffer.toList <+: first.buffer.toList) ∧
      (first.ended = true → second.buffer.toList <+: first.buffer.toList) ∧
      (second.ended = true → first.buffer.toList <+: second.buffer.toList) := by
  have opened := (blank_opened (sources.map Prod.fst)).opening distinct rfl confined met done
  rw [List.nil_append] at opened
  obtain ⟨cells, solved⟩ := Recipe.exists_courses network.multiplexers (sources.map Prod.snd)
  let web : Web α := ⟨network.multiplexers, sources.map Prod.snd, cells⟩
  have closed : web.Closed (sources.map Prod.fst) := by
    refine ⟨fun recipe among => ?_, fun name listed => ?_, solved _ _⟩
    · obtain ⟨source, present, rfl⟩ := List.mem_map.mp among
      exact confined source present
    · obtain ⟨cell, here⟩ := List.mem_iff_getElem?.mp listed
      refine ⟨cell, opened.names.mpr ⟨?_, here⟩⟩
      simpa using (List.getElem?_eq_some_iff.mp here).1
  obtain ⟨depth, rfl⟩ : ∃ depth, levels = depth + 1 := ⟨levels - 1, by omega⟩
  have low : web.deep ∅ 0 ≤ depth := by
    simp only [Web.deep, Web.idle, Web.tallest, web, Finset.sdiff_empty, Finset.card_range, List.length_map]
    omega
  have start : Reading web network := opened.reading (by simp) cells
  obtain ⟨cell, named⟩ := closed.named name listed
  have inside : cell < web.sources.length := (opened.names.mp named).1
  obtain ⟨first, here, holds⟩ := (start.steps definitions closed low reads).bufferOf named inside
  obtain ⟨second, there, also⟩ := (start.steps definitions closed low others).bufferOf named inside
  refine ⟨first, second, here, there, ?_, fun ended => also.front holds (holds.complete_longest also ended),
    fun ended => holds.front also (also.complete_longest holds ended)⟩
  exact (Nat.le_total first.buffer.size second.buffer.size).imp (holds.front also) (also.front holds)

-- Each of two buffers is the other with one added to its elements, and the first begins with an element
-- of its own.
def alternating : List (String × Recipe Nat) :=
  let next : Recipe Nat → Recipe Nat := .mapped fun _ value ledger => (.ok (value + 1), ledger)
  [("odd", .deferred none (.following [1] (next (.view "even")))), ("even", .deferred none (next (.view "odd")))]

theorem alternating_alike : ∃ network : Network Nat, ∃ first second : Buffered (Option (Stream Nat)) Nat,
    Session.steps (Stream.machine [] 9) .blank (Session.opening alternating) = ([.done, .done], network) ∧
    (Session.steps (Stream.machine [] 9) network [.query "odd", .advance "odd", .query "odd"]).2.bufferOf? "odd" = some first ∧
    (Session.steps (Stream.machine [] 9) network [.addView "even" "view", .query "view"]).2.bufferOf? "odd" = some second ∧
    first.buffer.toList = [1, 3] ∧ second.buffer.toList = [1] ∧
    (first.buffer.toList <+: second.buffer.toList ∨ second.buffer.toList <+: first.buffer.toList) := by
  have pure_ : Action.Pure fun _ value ledger => (.ok (value + 1 : Nat), ledger) := ⟨(· + 1), fun _ _ _ => rfl⟩
  have met : Session.steps (Stream.machine [] 9) .blank (Session.opening alternating) =
      ([.done, .done], (Session.steps (Stream.machine [] 9) .blank (Session.opening alternating)).2) := rfl
  have confined : ∀ source ∈ alternating, source.2.Confined (alternating.map Prod.fst) := by
    simp [alternating, Recipe.Confined, pure_]
  have reads : ∀ step ∈ [Step.query "odd", .advance "odd", .query "odd"], Session.Reads (α := Nat) step := by
    simp [Session.Reads]
  have others : ∀ step ∈ [Step.addView "even" "view", .query "view"], Session.Reads (α := Nat) step := by
    simp [Session.Reads]
  have listed : "odd" ∈ alternating.map Prod.fst := by decide
  obtain ⟨first, second, here, there, alike, _⟩ :=
    schedules_fill_buffers_alike (by decide) confined (by decide) met (by simp) reads others listed
  have one : first.buffer.toList = [1, 3] := (Option.some.inj (congrArg (Option.map (·.buffer.toList)) here)).symm
  have other : second.buffer.toList = [1] := (Option.some.inj (congrArg (Option.map (·.buffer.toList)) there)).symm
  exact ⟨_, first, second, met, here, there, one, other, alike⟩

end Network
end LightestFirst
