import Mathlib.Data.Stream.Init
import LightestFirst.Proofs.Networks.Schedules
import LightestFirst.Proofs.Networks.HandleInvariants
-- A buffer fed by a view of itself. Its source begins with elements of its own and goes on with the images of
-- those the buffer holds already: the view inside stays behind the end of the buffer by as many places as there
-- were elements to begin with, so it never has to wait for the source that it stands in.
namespace LightestFirst
variable {α : Type}

namespace Session
variable {β : Type} {machine : Machine (Network α) (Stream α) α} {network : Network α} {handle : String} {status : Status α}

theorem onHandle_untold {τ : Type} {kind : Handle.Kind α τ} {form : β → Reply α}
    {call : τ → Network α → Attempt β × τ × Network α} (untold : ∀ value, form value ≠ .status status) :
    (onHandle kind handle form call network).1 ≠ .status status := by
  rw [onHandle]
  split
  · exact fun told => by cases told
  · split
    · exact fun told => by cases told
    · next state _ =>
      generalize call state _ = outcome
      obtain ⟨_ | value, _, _⟩ := outcome
      · exact fun told => by cases told
      · exact untold value

theorem observe_untold {form : β → Reply α} {look : Stream α → Network α → Option β}
    (untold : ∀ value, form value ≠ .status status) : (observe handle form look network).1 ≠ .status status := by
  rw [observe]
  split
  · exact fun told => by cases told
  · exact fun told => by cases told
  · split
    · exact fun told => by cases told
    · exact untold _

theorem derive_untold {fresh : String} {make : Stream α → Option (Stream α)} :
    (derive handle fresh make network).1 ≠ .status status := by
  rw [derive]
  split
  · exact fun told => by cases told
  · exact fun told => by cases told
  · split
    · exact fun told => by cases told
    · exact fun told => by cases told

theorem Reads.query_of_status {step : Step α} (reads : Reads step)
    (told : (Session.step machine step network).1 = .status status) : ∃ handle, step = .query handle := by
  cases step with
  | query handle => exact ⟨handle, rfl⟩
  | advance handle => exact absurd told (onHandle_untold fun _ told => by cases told)
  | inspect handle => exact absurd told (onHandle_untold fun _ told => by cases told)
  | addView multiplexer view => exact absurd told derive_untold
  | fork view copy => exact absurd told derive_untold
  | drop handle =>
    rw [Session.step] at told
    split at told
    · cases told
    · cases told
  | buffered multiplexer => exact absurd told (observe_untold fun _ told => by cases told)
  | exhausted multiplexer => exact absurd told (observe_untold fun _ told => by cases told)
  | position view => exact absurd told (observe_untold fun _ told => by cases told)
  | _ => cases reads

end Session

-- A function that refuses nothing, and what the ledger is told of each of its calls.
structure SelfFed (α : Type) where
  items : List α
  begun : items ≠ []
  f : α → α
  note : α → Ledger → Ledger

namespace SelfFed
variable (feed : SelfFed α)

def action : Action α := fun _ value ledger => (.ok (feed.f value), feed.note value ledger)

def body (name : String) : Recipe α := .following feed.items (.mapped feed.action (.view name))

-- The view is looked up by the first call, when the buffer has its name.
def recipe (name : String) : Recipe α := .multiplexed (.deferred none (feed.body name))

theorem length_pos : 0 < feed.items.length := List.length_pos_of_ne_nil feed.begun

def element (place : Nat) : α :=
  Nat.iterate feed.f (place / feed.items.length)
    (feed.items.get ⟨place % feed.items.length, Nat.mod_lt place feed.length_pos⟩)

def sequence : Stream' α := feed.element

theorem element_item {place : Nat} (inside : place < feed.items.length) : feed.items[place] = feed.element place := by
  simp only [element, Nat.div_eq_of_lt inside, Nat.mod_eq_of_lt inside, Function.iterate_zero, id_eq]
  rfl

theorem element_image (place : Nat) : feed.element (feed.items.length + place) = feed.f (feed.element place) := by
  simp only [element, Nat.add_div_left place feed.length_pos, Nat.add_mod_left]
  exact Function.iterate_succ_apply' feed.f _ _

theorem sequence_unrolls : feed.sequence = feed.items ++ₛ feed.sequence.map feed.f := by
  refine Stream'.ext fun place => ?_
  rcases Nat.lt_or_ge place feed.items.length with inside | beyond
  · rw [Stream'.get_append_left _ _ _ inside]
    exact (feed.element_item inside).symm
  · obtain ⟨more, rfl⟩ := Nat.exists_eq_add_of_le beyond
    rw [Stream'.get_append_right, Stream'.get_map]
    exact feed.element_image more

theorem sequence_unique (s : Stream' α) : s = feed.items ++ₛ s.map feed.f ↔ s = feed.sequence := by
  constructor
  · intro unrolls
    refine Stream'.ext fun place => ?_
    induction place using Nat.strong_induction_on with
    | _ place ih =>
      rw [unrolls, feed.sequence_unrolls]
      rcases Nat.lt_or_ge place feed.items.length with inside | beyond
      · rw [Stream'.get_append_left _ _ _ inside, Stream'.get_append_left _ _ _ inside]
      · obtain ⟨more, rfl⟩ := Nat.exists_eq_add_of_le beyond
        rw [Stream'.get_append_right, Stream'.get_append_right, Stream'.get_map, Stream'.get_map,
          ih more (Nat.lt_add_of_pos_left feed.length_pos)]
  · rintro rfl
    exact feed.sequence_unrolls

section Source

def supply (calls : Nat) : Supply α := { Supply.ofList feed.items none with calls }

-- The source moved past so many elements: the view has moved with it from the last item on.
def poised (place : Nat) : Followed (Iterated (Supply α) α) (Stream α) :=
  if place ≤ feed.items.length then
    ⟨⟨feed.supply place, none⟩, decide (0 < place), .mapped feed.action (.start (.view 0 .start))⟩
  else
    ⟨⟨feed.supply (feed.items.length + 1), some none⟩, false,
      .mapped feed.action ⟨.view 0 ⟨place - feed.items.length, false⟩, none, place - feed.items.length⟩⟩

def shown (place : Nat) : Followed (Iterated (Supply α) α) (Stream α) :=
  if place < feed.items.length then
    ⟨⟨feed.supply (place + 1), some (some (feed.element place))⟩, true,
      .mapped feed.action (.start (.view 0 .start))⟩
  else
    ⟨⟨feed.supply (feed.items.length + 1), some none⟩, false,
      .mapped feed.action ⟨.view 0 ⟨place - feed.items.length, true⟩, some (.ready (feed.element place)),
        place - feed.items.length + 1⟩⟩

def source (name : String) : Nat → Stream α
  | 0 => .postponed (.waiting (.recipe none (feed.body name) 0))
  | size + 1 => .postponed (.forced (.following (feed.shown size)))

-- What producing an element does to the ledger: nothing for an item, a call of the function for an image.
def noted (place : Nat) (ledger : Ledger) : Ledger :=
  if place < feed.items.length then ledger else feed.note (feed.element (place - feed.items.length)) ledger

def cell (name : String) (size : Nat) : Buffered (Option (Stream α)) α :=
  ⟨some (feed.source name size), (feed.sequence.take size).toArray, false, decide (0 < size)⟩

variable {feed} (definitions : Definitions α) (depth : Nat) {place : Nat} {network : Network α}

theorem next_item (inside : place < feed.items.length) (network : Network α) :
    Stream.nextOf (feed.supply place) network = (some (feed.element place), feed.supply (place + 1), network) := by
  have answer : (feed.items.map some).toArray[place]?.join = some (feed.element place) := by
    simp [List.getElem?_eq_getElem inside, feed.element_item inside]
  simp only [Stream.nextOf, Supply.next, supply, Supply.ofList, Supply.scripted, answer, Ledger.tallyIf]

theorem next_nothing (network : Network α) :
    Stream.nextOf (feed.supply feed.items.length) network = (none, feed.supply (feed.items.length + 1), network) := by
  have answer : (feed.items.map some).toArray[feed.items.length]?.join = none := by simp
  simp only [Stream.nextOf, Supply.next, supply, Supply.ofList, Supply.scripted, answer]

theorem advance_shown (place : Nat) (network : Network α) :
    (Followed.machine (Iterated.machine Stream.nextOf) (Stream.machine definitions (depth + 2))).advance
      (feed.shown place) network = (.ok (), feed.poised (place + 1), network) := by
  rcases Nat.lt_or_ge place feed.items.length with inside | beyond
  · rw [shown, if_pos inside, poised, if_pos (Nat.succ_le_of_lt inside), decide_eq_true (Nat.succ_pos place)]
    rfl
  · rw [shown, if_neg (by omega), poised, if_neg (by omega), Nat.sub_add_comm beyond]
    rfl

-- The buffer, source or no source, holds what the view inside is about to read.
def Trails (feed : SelfFed α) (place : Nat) (network : Network α) : Prop :=
  feed.items.length ≤ place → ∃ shared, network.cells[0]? = some shared ∧
    shared.settled? (place - feed.items.length) = some (.ready (feed.element (place - feed.items.length)))

theorem query_image (trails : feed.Trails (feed.items.length + place) network) :
    (Stream.machine definitions (depth + 2)).query (.mapped feed.action ⟨.view 0 ⟨place, false⟩, none, place⟩) network =
      (.ok (.ready (feed.element (feed.items.length + place))),
        .mapped feed.action ⟨.view 0 ⟨place, true⟩, some (.ready (feed.element (feed.items.length + place))), place + 1⟩,
        network.updateLedger (feed.noted (feed.items.length + place))) := by
  obtain ⟨shared, there, settled⟩ := trails (Nat.le_add_right _ _)
  rw [Nat.add_sub_cancel_left] at settled
  have read : Stream.readCell (Stream.machine definitions depth) 0 place network =
      (.ok (.ready (feed.element place)), network) := by
    simp only [Stream.readCell, there, settled]
  have called : feed.noted (feed.items.length + place) = feed.note (feed.element place) := by
    funext ledger
    rw [noted, if_neg (by omega), Nat.add_sub_cancel_left]
  rw [called, element_image]
  simp only [Stream.machine_succ, Stream.level, Stream.layer, Mapped.machine, Mapped.query, Reader.machine, Reader.query,
    read, Machine.within, Stream.actOn, Network.onLedger, action, Status.isReady]
  rfl

theorem query_poised (trails : feed.Trails place network) :
    (Followed.machine (Iterated.machine Stream.nextOf) (Stream.machine definitions (depth + 2))).query
      (feed.poised place) network =
        (.ok (.ready (feed.element place)), feed.shown place, network.updateLedger (feed.noted place)) := by
  rcases Nat.lt_or_ge place feed.items.length with inside | beyond
  · have uncalled : feed.noted place = id := by
      funext ledger
      exact if_pos inside
    rw [poised, if_pos (Nat.le_of_lt inside), shown, if_pos inside, uncalled]
    simp only [Followed.machine, Followed.query, Iterated.machine, Iterated.query, next_item inside, Iterated.answer]
    rfl
  · obtain ⟨more, rfl⟩ := Nat.exists_eq_add_of_le beyond
    have image := query_image definitions depth trails
    rw [shown, if_neg (by omega), Nat.add_sub_cancel_left]
    cases more with
    | zero =>
      -- the iterator is asked once beyond its items, and the view for the first time
      rw [poised, if_pos (Nat.le_of_eq (Nat.add_zero _))]
      simp only [Nat.add_zero] at image ⊢
      simp only [Followed.machine, Followed.query, Iterated.machine, Iterated.query, next_nothing, Iterated.answer,
        Mapped.start, Reader.start, image, Machine.within]
    | succ more =>
      rw [poised, if_neg (by omega), Nat.add_sub_cancel_left]
      simp only [Followed.machine, Followed.query, Iterated.machine, Iterated.query, Iterated.answer, image,
        Machine.within]

theorem query_forced (state : Followed (Iterated (Supply α) α) (Stream α)) (network : Network α) :
    (Stream.machine definitions (depth + 4)).query (.postponed (.forced (.following state))) network =
      Machine.within (fun state => .postponed (.forced (.following state)))
        ((Followed.machine (Iterated.machine Stream.nextOf) (Stream.machine definitions (depth + 2))).query
          state network) := rfl

theorem advance_forced (state : Followed (Iterated (Supply α) α) (Stream α)) (network : Network α) :
    (Stream.machine definitions (depth + 4)).advance (.postponed (.forced (.following state))) network =
      Machine.within (fun state => .postponed (.forced (.following state)))
        ((Followed.machine (Iterated.machine Stream.nextOf) (Stream.machine definitions (depth + 2))).advance
          state network) := rfl

theorem query_waiting {name : String} (named : network.multiplexers.get? name = some 0) :
    (Stream.machine definitions (depth + 4)).query (feed.source name 0) network =
      (Stream.machine definitions (depth + 4)).query (.postponed (.forced (.following (feed.poised 0)))) network := by
  have built : Blueprint.build definitions (.recipe none (feed.body name) 0) network =
      (.ok (.following (feed.poised 0)), network) := by
    simp only [Blueprint.build, body, Recipe.build, Network.updateLedger, Ledger.tallyIf, named, poised, Nat.zero_le,
      if_true]
    rfl
  rw [query_forced, source, Stream.machine_succ _ (depth + 3)]
  simp only [Stream.level, Stream.layer, Postponed.machine, Postponed.reach, built]
  rfl

theorem draw_source {name : String} (named : network.multiplexers.get? name = some 0) (trails : feed.Trails place network) :
    Buffered.draw (Stream.machine definitions (depth + 4)) (feed.source name place) (decide (0 < place)) network =
      (.ok (.ready (feed.element place)), true, feed.source name (place + 1), network.updateLedger (feed.noted place)) := by
  have asked : (Stream.machine definitions (depth + 4)).query (.postponed (.forced (.following (feed.poised place)))) network =
      (.ok (.ready (feed.element place)), feed.source name (place + 1), network.updateLedger (feed.noted place)) := by
    rw [query_forced, query_poised definitions depth trails]
    rfl
  cases place with
  | zero =>
    rw [decide_eq_false (Nat.lt_irrefl 0), Buffered.draw, Buffered.draw.ask, query_waiting definitions depth named, asked]
    rfl
  | succ place =>
    have passed : (Stream.machine definitions (depth + 4)).advance (feed.source name (place + 1)) network =
        (.ok (), .postponed (.forced (.following (feed.poised (place + 1)))), network) := by
      rw [source, advance_forced, advance_shown]
      rfl
    rw [decide_eq_true (Nat.succ_pos place), Buffered.draw, passed]
    simp only [Buffered.draw.ask, asked, Status.isReady]

end Source

-- The buffer holds so many elements, and the function has been called on those that this took, in their order.
structure Fed (name : String) (size : Nat) (network : Network α) : Prop where
  cells : network.cells = #[feed.cell name size]
  named : network.multiplexers.get? name = some 0
  ledger : network.ledger =
    (feed.sequence.take (size - feed.items.length)).foldl (fun ledger value => feed.note value ledger) .blank

def Reads (held : Handle α) (network : Network α) : Prop :=
  ∃ main reader, held = .stream (.reading main 0 reader) ∧ reader.Follows (network.sizeOf 0)

variable {feed} {name : String} {size place : Nat} {network : Network α} (definitions : Definitions α) (depth : Nat)

theorem settled_cell (name : String) (inside : place < size) :
    (feed.cell name size).settled? place = some (.ready (feed.element place)) := by
  have held : (feed.sequence.take size).toArray[place]? = some (feed.element place) := by
    rw [List.getElem?_toArray]
    exact Stream'.getElem?_take inside
  simp only [Buffered.settled?, cell, held]

theorem unsettled_cell : (feed.cell name size).settled? size = none := by
  have missing : (feed.sequence.take size).toArray[size]? = none := by simp
  simp only [Buffered.settled?, cell, missing, Bool.false_eq_true, if_false]

theorem absorb_cell (feed : SelfFed α) (name : String) (size : Nat) :
    (feed.cell name size).absorb (.ok (.ready (feed.element size))) true (some (feed.source name (size + 1))) =
      feed.cell name (size + 1) := by
  have pushed : (feed.sequence.take size).toArray.push (feed.element size) = (feed.sequence.take (size + 1)).toArray := by
    rw [Stream'.take_succ', List.push_toArray]
    rfl
  simp only [Buffered.absorb, cell, pushed, Nat.succ_pos, decide_true]

theorem Fed.sizeOf (fed : feed.Fed name size network) : network.sizeOf 0 = size := by
  rw [Network.sizeOf, fed.cells]
  simp [cell]

def grown (feed : SelfFed α) (name : String) (size : Nat) (network : Network α) : Network α :=
  { network with cells := #[feed.cell name (size + 1)], ledger := feed.noted size network.ledger }

theorem Fed.grown (fed : feed.Fed name size network) : feed.Fed name (size + 1) (feed.grown name size network) := by
  refine ⟨rfl, fed.named, ?_⟩
  simp only [SelfFed.grown, noted, fed.ledger]
  split
  · next inside => rw [Nat.sub_eq_zero_of_le (Nat.le_of_lt inside), Nat.sub_eq_zero_of_le inside]
  · next beyond =>
    rw [Nat.sub_add_comm (Nat.le_of_not_lt beyond), Stream'.take_succ', List.foldl_append]
    rfl

theorem readCell_grows (fed : feed.Fed name size network) :
    Stream.readCell (Stream.machine definitions (depth + 4)) 0 size network =
      (.ok (.ready (feed.element size)), feed.grown name size network) := by
  have there : network.cells[0]? = some (feed.cell name size) := by rw [fed.cells]; rfl
  have emptied : (network.setCell 0 ((feed.cell name size).replace none)).cells = #[(feed.cell name size).replace none] := by
    simp [Network.setCell, fed.cells]
  have trails : feed.Trails size (network.setCell 0 ((feed.cell name size).replace none)) := fun beyond =>
    ⟨(feed.cell name size).replace none, by rw [emptied]; rfl,
      settled_cell name (Nat.sub_lt (Nat.lt_of_lt_of_le feed.length_pos beyond) feed.length_pos)⟩
  have named : (network.setCell 0 ((feed.cell name size).replace none)).multiplexers.get? name = some 0 := fed.named
  have drawn := draw_source definitions depth named trails
  have back := feed.absorb_cell name size
  simp only [Stream.readCell, there, unsettled_cell]
  simp only [cell] at drawn back ⊢
  rw [drawn]
  simp only [back, Network.setCell_setCell]
  simp [Network.setCell, Network.updateLedger, SelfFed.grown, fed.cells, cell]

theorem readCell_fed (fed : feed.Fed name size network) (behind : place ≤ size) : ∃ after more,
    Stream.readCell (Stream.machine definitions (depth + 4)) 0 place network = (.ok (.ready (feed.element place)), after) ∧
      feed.Fed name more after ∧ size ≤ more ∧ place < more ∧ after.handles = network.handles := by
  rcases Nat.lt_or_eq_of_le behind with inside | rfl
  · have there : network.cells[0]? = some (feed.cell name size) := by rw [fed.cells]; rfl
    refine ⟨network, size, ?_, fed, Nat.le_refl _, inside, rfl⟩
    simp only [Stream.readCell, there, settled_cell name inside]
  · exact ⟨_, place + 1, readCell_grows definitions depth fed, fed.grown, Nat.le_succ _, Nat.lt_succ_self _, rfl⟩

abbrev Told (feed : SelfFed α) (name : String) : Network α → Prop :=
  Network.AllFit (fun network => ∃ size, feed.Fed name size network) Reads

theorem ignoring (feed : SelfFed α) (name : String) :
    Network.IgnoresHandles (fun network => ∃ size, feed.Fed name size network) Reads where
  sound := fun _ ⟨size, fed⟩ => ⟨size, fed.cells, fed.named, fed.ledger⟩
  fits := fun _ reads => reads

theorem Reads.kept {held : Handle α} {after : Network α} (reads : Reads held network)
    (grown : network.sizeOf 0 ≤ after.sizeOf 0) : Reads held after := by
  obtain ⟨main, reader, rfl, follows⟩ := reads
  exact ⟨main, reader, rfl, follows.kept grown⟩

theorem query_told (told : feed.Told name network) (main : Bool) {reader : Reader}
    (behind : reader.index ≤ network.sizeOf 0) : ∃ after,
    (Stream.machine definitions (depth + 5)).query (.reading main 0 reader) network =
        (.ok (.ready (feed.element reader.index)), .reading main 0 ⟨reader.index, true⟩, after) ∧
      feed.Told name after ∧ reader.index < after.sizeOf 0 := by
  obtain ⟨size, fed⟩ := told.sound
  obtain ⟨after, more, read, later, wider, inside, same⟩ :=
    readCell_fed definitions depth fed (fed.sizeOf ▸ behind)
  have grown : network.sizeOf 0 ≤ after.sizeOf 0 := by rwa [fed.sizeOf, later.sizeOf]
  refine ⟨after, ?_, ⟨⟨more, later⟩, fun found => (told.handles (same ▸ found)).kept grown⟩, later.sizeOf ▸ inside⟩
  cases main <;> simp only [Stream.reading, Stream.machine_succ _ (depth + 4), Stream.level, Stream.layer, Reader.machine,
    Reader.query, read, Machine.within, Status.isReady]

theorem advance_told (main : Bool) (reader : Reader) (network : Network α) :
    (Stream.machine definitions (depth + 5)).advance (.reading main 0 reader) network =
      Machine.within (.reading main 0) (reader.advance network) := by
  cases main <;> rfl

theorem query_keeps (feed : SelfFed α) (name : String) :
    Network.Keeps (fun network => ∃ size, feed.Fed name size network) Reads .stream
      (Stream.machine definitions (depth + 5)).query := by
  rintro _ network told ⟨main, reader, ⟨⟩, follows⟩
  obtain ⟨after, asked, later, shown⟩ := query_told definitions depth told main follows.behind
  rw [asked]
  exact ⟨later, main, _, rfl, Nat.le_of_lt shown, fun _ => shown⟩

theorem advance_keeps (feed : SelfFed α) (name : String) :
    Network.Keeps (fun network => ∃ size, feed.Fed name size network) Reads .stream
      (Stream.machine definitions (depth + 5)).advance := by
  rintro _ network told ⟨main, reader, ⟨⟩, follows⟩
  rw [advance_told]
  exact ⟨(reader.advance_network network).symm ▸ told, main, _, rfl, follows.advance⟩

theorem Told.steps (told : feed.Told name network) {conversation : List (Step α)}
    (reads : ∀ step ∈ conversation, Session.Reads step) :
    feed.Told name (Session.steps (Stream.machine definitions (depth + 5)) network conversation).2 := by
  refine Network.AllFit.conversation (feed.ignoring name) (query_keeps definitions depth feed name)
    (advance_keeps definitions depth feed name) ?_ ?_ reads told
  · rintro _ made network ⟨main, reader, ⟨⟩, _⟩ from_
    cases main <;> cases from_
    exact ⟨false, .start, rfl, .start _⟩
  · rintro _ made network ⟨main, reader, ⟨⟩, follows⟩ from_
    cases main <;> cases from_
    exact ⟨false, reader, rfl, follows⟩

theorem define_told (feed : SelfFed α) (name : String) :
    ∃ network, Session.define name (feed.recipe name) .blank = (.done, network) ∧ feed.Told name network := by
  refine ⟨_, rfl, ⟨0, ?_, ?_, ?_⟩, fun {other held} found => ?_⟩
  · rfl
  · exact Table.get?_put_self _ _ _
  · rw [Nat.zero_sub]
    rfl
  · rcases Table.get?_of_put found with rfl | before
    · exact ⟨true, .start, rfl, .start _⟩
    · cases before

theorem Told.reads_on (told : feed.Told name network) {handle : String} {held : Handle α}
    (found : network.handles.get? handle = some held) : ∃ main reader asked passed,
      held = .stream (.reading main 0 reader) ∧
      Session.step (Stream.machine definitions (depth + 5)) (.query handle) network =
        (.status (.ready (feed.sequence.get reader.index)), asked) ∧
      asked.handles.get? handle = some (.stream (.reading main 0 ⟨reader.index, true⟩)) ∧
      Session.step (Stream.machine definitions (depth + 5)) (.advance handle) asked = (.done, passed) ∧
      passed.handles.get? handle = some (.stream (.reading main 0 ⟨reader.index + 1, false⟩)) := by
  obtain ⟨main, reader, rfl, follows⟩ := told.handles found
  obtain ⟨after, asked, _⟩ := query_told definitions depth (told.erase (feed.ignoring name) handle) main follows.behind
  let shown : Network α := { after with handles := after.handles.put handle (.stream (.reading main 0 ⟨reader.index, true⟩)) }
  have here : shown.handles.get? handle = some (.stream (.reading main 0 ⟨reader.index, true⟩)) := Table.get?_put_self _ _ _
  have moved : (Stream.machine definitions (depth + 5)).advance (.reading main 0 ⟨reader.index, true⟩)
      { shown with handles := shown.handles.erase handle } =
        (.ok (), .reading main 0 ⟨reader.index + 1, false⟩, { shown with handles := shown.handles.erase handle }) := by
    rw [advance_told, Reader.advance, if_pos rfl]
    rfl
  exact ⟨main, reader, shown, _, rfl, Session.onHandle_eq found asked, here, Session.onHandle_eq here moved,
    Table.get?_put_self _ _ _⟩

theorem Told.answers (told : feed.Told name network) {conversation : List (Step α)}
    (reads : ∀ step ∈ conversation, Session.Reads step) {status : Status α}
    (among : .status status ∈ (Session.steps (Stream.machine definitions (depth + 5)) network conversation).1) :
    status.isReady = true := by
  induction conversation generalizing network with
  | nil => cases among
  | cons first rest ih =>
    have reads_first : ∀ step ∈ [first], Session.Reads step := fun step listed =>
      reads step (List.mem_singleton.mp listed ▸ List.mem_cons_self)
    rcases List.mem_cons.mp among with here | later
    · have replied : (Session.step (Stream.machine definitions (depth + 5)) first network).1 = .status status := here.symm
      obtain ⟨handle, rfl⟩ := (reads first List.mem_cons_self).query_of_status replied
      cases found : network.handles.get? handle with
      | none =>
        simp only [Session.step, Session.onHandle, found] at replied
        cases replied
      | some held =>
        obtain ⟨_, reader, _, _, _, answered, _⟩ := told.reads_on definitions depth found
        rw [answered] at replied
        cases replied
        rfl
    · have told_then := told.steps definitions depth reads_first
      exact ih told_then (fun step listed => reads step (List.mem_cons_of_mem _ listed)) later

-- Whatever is said to its readers, each query is answered with an element. Afterwards the buffer holds the front of
-- the sequence and has not ended, and the function has been called once for each element in it that is no item.
-- Whoever asks next, be it the first reader, a view or a copy of one, is told the element of its place and can move
-- past it.
theorem self_reading_is_productive (feed : SelfFed α) (name : String) (definitions : Definitions α) (depth : Nat)
    {said : List (Step α)} (reads : ∀ step ∈ said, Session.Reads step) :
    (∀ s : Stream' α, s = feed.items ++ₛ s.map feed.f ↔ s = feed.sequence) ∧
    ∃ replies network shared,
      Session.steps (Stream.machine definitions (depth + 5)) .blank (.define name (feed.recipe name) :: said) =
        (.done :: replies, network) ∧
      (∀ status, .status status ∈ replies → status.isReady = true) ∧
      network.bufferOf? name = some shared ∧ shared.ended = false ∧
      shared.buffer.toList = feed.sequence.take shared.buffer.size ∧
      network.ledger = (feed.sequence.take (shared.buffer.size - feed.items.length)).foldl
        (fun ledger value => feed.note value ledger) .blank ∧
      ∀ handle held, network.handles.get? handle = some held → ∃ main reader asked passed,
        held = .stream (.reading main 0 reader) ∧
        Session.step (Stream.machine definitions (depth + 5)) (.query handle) network =
          (.status (.ready (feed.sequence.get reader.index)), asked) ∧
        asked.handles.get? handle = some (.stream (.reading main 0 ⟨reader.index, true⟩)) ∧
        Session.step (Stream.machine definitions (depth + 5)) (.advance handle) asked = (.done, passed) ∧
        passed.handles.get? handle = some (.stream (.reading main 0 ⟨reader.index + 1, false⟩)) := by
  obtain ⟨made, defined, told⟩ := define_told feed name
  have later := told.steps definitions depth reads
  have answers : ∀ status, .status status ∈ (Session.steps (Stream.machine definitions (depth + 5)) made said).1 →
      status.isReady = true := fun _ => told.answers definitions depth reads
  have met : Session.steps (Stream.machine definitions (depth + 5)) .blank (.define name (feed.recipe name) :: said) =
      (.done :: (Session.steps (Stream.machine definitions (depth + 5)) made said).1,
        (Session.steps (Stream.machine definitions (depth + 5)) made said).2) := by
    simp only [Session.steps, Session.step, defined]
  generalize Session.steps (Stream.machine definitions (depth + 5)) made said = outcome at later answers met
  obtain ⟨replies, network⟩ := outcome
  obtain ⟨size, fed⟩ := later.sound
  refine ⟨feed.sequence_unique, replies, network, feed.cell name size, met, answers, ?_, rfl, ?_, ?_, fun handle held found =>
    later.reads_on definitions depth found⟩
  · rw [Network.bufferOf?, fed.named, Option.bind_some, fed.cells]
    rfl
  · simp [cell]
  · simpa [cell] using fed.ledger

def counting : SelfFed Nat := ⟨[1], nofun, (· + 1), fun _ ledger => ledger.tally "add"⟩

theorem counting_up : (∀ step ∈ [Step.query "n", .advance "n", .query "n", .addView "n" "v", .advance "n", .query "n"],
      Session.Reads (α := Nat) step) ∧
    ∃ network shared,
      Session.steps (Stream.machine [] 5) .blank (.define "n" (counting.recipe "n") ::
          [.query "n", .advance "n", .query "n", .addView "n" "v", .advance "n", .query "n"]) =
        ([.done, .status (.ready 1), .done, .status (.ready 2), .done, .done, .status (.ready 3)], network) ∧
      network.bufferOf? "n" = some shared ∧ shared.buffer.toList = counting.sequence.take shared.buffer.size ∧
      shared.buffer.toList = [1, 2, 3] ∧ network.ledger.count "add" = 2 ∧
      (Session.step (Stream.machine [] 5) (.query "v") network).1 = .status (.ready (counting.sequence.get 0)) := by
  have reads : ∀ step ∈ [Step.query "n", .advance "n", .query "n", .addView "n" "v", .advance "n", .query "n"],
      Session.Reads (α := Nat) step := by
    simp [Session.Reads]
  obtain ⟨-, replies, network, shared, met, -, here, -, front, noted, asked⟩ :=
    self_reading_is_productive counting "n" [] 0 reads
  obtain rfl := (List.cons.inj (congrArg Prod.fst met)).2
  obtain rfl := congrArg Prod.snd met
  obtain ⟨main, reader, asked, passed, same, told, -⟩ := asked "v" (.stream (.view 0 .start)) rfl
  refine ⟨reads, _, shared, rfl, here, front, ?_, rfl, ?_⟩
  · exact (Option.some.inj (congrArg (Option.map (·.buffer.toList)) here)).symm
  · cases main <;> cases same
    exact congrArg Prod.fst told

end SelfFed
end LightestFirst
