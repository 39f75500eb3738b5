import LightestFirst.Proofs.Networks.ReentrantReading
import LightestFirst.Proofs.Networks.StepInvariants
-- The readers in a network, wherever they are held: under names, inside streams, inside the sources of buffers,
-- in the lanes of products.
namespace LightestFirst
variable {α β : Type}

open Network

namespace Stream

inductive InStep (network : Network α) : Stream α → Prop where
  | empty : InStep network .empty
  | single {state : Single α} : InStep network (.single state)
  | iterated {state : Iterated (Supply α) α} : InStep network (.iterated state)
  | waiting {blueprint : Blueprint α} : InStep network (.postponed (.waiting blueprint))
  | forced {inner : Stream α} (inside : InStep network inner) : InStep network (.postponed (.forced inner))
  | spent : InStep network (.postponed .spent)
  | mapped {f : Action α} {state : Mapped (Stream α) α} (inside : InStep network state.inner) :
      InStep network (.mapped f state)
  | merged {le : α → α → Bool} {state : Merged (Stream α) (Stream α) α} (left : InStep network state.left)
      (right : InStep network state.right) : InStep network (.merged le state)
  | paired {le : α → α → Bool} {join : JoinAction α} {state : Paired (Stream α) (Stream α) α}
      (left : InStep network state.left) (right : InStep network state.right.source)
      (lanes : Paired.LanesFollow state.lanes state.right.buffer.size) : InStep network (.paired le join state)
  | multiplexer {cell : Nat} {reader : Reader} (follows : reader.Follows (network.sizeOf cell)) :
      InStep network (.multiplexer cell reader)
  | view {cell : Nat} {reader : Reader} (follows : reader.Follows (network.sizeOf cell)) :
      InStep network (.view cell reader)
  | boxed {inner : Stream α} (inside : InStep network inner) : InStep network (.boxed inner)
  | probed {name : String} {inner : Stream α} (inside : InStep network inner) : InStep network (.probed name inner)
  | gated {gate : String} {inner : Stream α} (inside : InStep network inner) : InStep network (.gated gate inner)
  | delayed {state : Delayed (Stream α)} (inside : InStep network state.inner) : InStep network (.delayed state)
  | following {state : Followed (Iterated (Supply α) α) (Stream α)} (tail : InStep network state.tail) :
      InStep network (.following state)

theorem InStep.kept {before after : Network α} {stream : Stream α} (there : stream.InStep before)
    (grown : ∀ cell, before.sizeOf cell ≤ after.sizeOf cell) : stream.InStep after := by
  induction there with
  | empty => exact .empty
  | single => exact .single
  | iterated => exact .iterated
  | waiting => exact .waiting
  | forced _ ih => exact .forced ih
  | spent => exact .spent
  | mapped _ ih => exact .mapped ih
  | merged _ _ left right => exact .merged left right
  | paired _ _ lanes left right => exact .paired left right lanes
  | multiplexer follows => exact .multiplexer (follows.kept (grown _))
  | view follows => exact .view (follows.kept (grown _))
  | boxed _ ih => exact .boxed ih
  | probed _ ih => exact .probed ih
  | gated _ ih => exact .gated ih
  | delayed _ ih => exact .delayed ih
  | following _ ih => exact .following ih

end Stream

def Handle.InStep : Handle α → Network α → Prop
  | .stream held, network => held.InStep network
  | .iteration held, network => held.stream.InStep network

theorem Handle.InStep.kept {before after : Network α} {held : Handle α} (there : held.InStep before)
    (grown : ∀ cell, before.sizeOf cell ≤ after.sizeOf cell) : held.InStep after := by
  cases held with
  | stream => exact Stream.InStep.kept there grown
  | iteration => exact Stream.InStep.kept there grown

namespace Network

-- The sources that are at home, and how their buffers came to be what they are.
def SourcesInStep (definitions : Definitions α) (network : Network α) : Prop :=
  ∀ ⦃cell : Nat⦄ ⦃shared : Buffered (Option (Stream α)) α⦄ ⦃source : Stream α⦄,
    network.cells[cell]? = some shared → shared.source = some source →
      source.InStep network ∧ network.Lived definitions cell

abbrev InStep (definitions : Definitions α) : Network α → Prop := AllFit (SourcesInStep definitions) Handle.InStep

def Advances (before after : Network α) : Prop := KeepsAnswers before after ∧ Extends before after

theorem advances_confines : Confines (Advances : Network α → Network α → Prop) :=
  keepsAnswers_confines.and extends_cellwise.confines

variable {definitions : Definitions α} {before after network : Network α} {cell : Nat}
  {shared now : Buffered (Option (Stream α)) α}

theorem Advances.grown (advances : Advances before after) (cell : Nat) : before.sizeOf cell ≤ after.sizeOf cell :=
  advances.1.1.grown cell

theorem Advances.aside (cells : after.cells = before.cells) (handles : after.handles = before.handles) :
    Advances before after := ⟨.aside cells handles, .of_cells cells⟩

theorem SourcesInStep.aside (sources : before.SourcesInStep definitions) (cells : after.cells = before.cells) :
    after.SourcesInStep definitions := by
  intro cell shared source there home
  obtain ⟨inside, lived⟩ := sources (cells ▸ there) home
  exact ⟨inside.kept (Outlasts.aside cells).grown, lived.beside (by rw [cells])⟩

theorem inStep_besideCalls : KeptBesideCalls (SourcesInStep definitions) Handle.InStep where
  ignoring :=
    { sound _ sources := sources.aside rfl
      fits _ there := there.kept fun _ => Nat.le_refl _ }
  beside _ _ inStep :=
    ⟨inStep.sound.aside rfl, fun found => (inStep.handles found).kept fun _ => Nat.le_refl _⟩
  iteration := Iff.rfl
  boxed := Stream.InStep.boxed
  fresh := Stream.InStep.view (.start _)

theorem InStep.aside (inStep : before.InStep definitions) (cells : after.cells = before.cells)
    (handles : after.handles = before.handles) : after.InStep definitions :=
  ⟨inStep.sound.aside cells, fun found => (inStep.handles (handles ▸ found)).kept (Outlasts.aside cells).grown⟩

theorem InStep.setCell (inStep : network.InStep definitions) (there : network.cells[cell]? = some shared)
    (larger : shared.buffer.size ≤ now.buffer.size) (fits : ∀ source, now.source = some source →
      source.InStep network ∧ (network.setCell cell now).Lived definitions cell) :
    (network.setCell cell now).InStep definitions := by
  have inside : cell < network.cells.size := (Array.getElem?_eq_some_iff.mp there).1
  have grown := sizeOf_setCell inside ((sizeOf_eq there).trans_le larger)
  refine ⟨fun other held source found home => ?_, fun found => (inStep.handles found).kept grown⟩
  have written := getElem?_setCell network cell other now inside
  rw [written] at found
  split at found
  · next same =>
    subst same
    obtain rfl := Option.some.inj found
    exact (fits source home).imp_left (·.kept grown)
  · next different =>
    rw [if_neg different] at written
    exact (inStep.sound found home).imp (·.kept grown) (·.beside written)

theorem InStep.addCell {source : Stream α} (inStep : network.InStep definitions) (fits : source.InStep network) :
    (network.addCell source).2.InStep definitions := by
  have grown := (outlasts_addCell network source).grown
  refine ⟨fun cell held running found home => ?_, fun found => (inStep.handles found).kept grown⟩
  have pushed : (network.addCell source).2.cells[cell]? = _ := Array.getElem?_push
  rw [pushed] at found
  split at found
  · next last =>
    obtain rfl := Option.some.inj found
    obtain rfl := Option.some.inj home
    exact ⟨fits.kept grown, last ▸ lived_addCell network source⟩
  · next other =>
    rw [if_neg other] at pushed
    exact (inStep.sound found home).imp (·.kept grown) (·.beside pushed)

abbrev pace (definitions : Definitions α) : Budget (Network α) :=
  fitBudget (SourcesInStep definitions) Handle.InStep advances_confines.drifts

theorem pace_ledger (act : Ledger → β × Ledger) : (pace definitions).Spares (onLedger act) :=
  fun inStep => ⟨InStep.aside inStep rfl rfl, .aside rfl rfl⟩

end Network

theorem Recipe.build_inStep {definitions : Definitions α} (recipe : Recipe α) (fuel : Nat) {sum : Nat}
    {network : Network α} (inStep : network.InStep definitions) :
    Postponed.Built (pace definitions) (allowing Handle.InStep) sum network (recipe.build fuel network) := by
  have drifts := (advances_confines (α := α)).drifts
  have plain : ∀ {stream : Stream α} {network : Network α}, stream.InStep network → network.InStep definitions →
      Postponed.Built (pace definitions) (allowing Handle.InStep) sum network (.ok stream, network) :=
    fun {_ network} there inStep => .built (k := 0) (j := 0) there inStep (Nat.zero_le _) (drifts.stays network)
  induction recipe generalizing network with
  | empty => exact plain .empty inStep
  | single value => exact plain .single inStep
  | iterated supply => exact plain .iterated inStep
  | deferred tally body => exact plain .waiting inStep
  | defined definition fuel => exact plain .waiting inStep
  | recurring definition =>
    cases fuel with
    | zero => exact plain .empty inStep
    | succ fuel => exact plain .waiting inStep
  | mapped f inner ih | boxed inner ih | probed name inner ih | gated gate inner ih | delayed period inner ih
  | following head inner ih =>
    have outcome := ih inStep
    rw [build]
    generalize inner.build fuel network = built at outcome ⊢
    cases outcome with
    | failed spent less moved => exact .failed spent less moved
    | built there spent less moved =>
      refine .built (k := 0) (j := 0) ?_ spent (Nat.zero_le _) moved
      constructor
      exact there
  | merged le left right first second | paired le join left right first second =>
    have outcome := first inStep
    rw [build]
    generalize left.build fuel network = built at outcome ⊢
    cases outcome with
    | failed spent less moved => exact .failed spent less moved
    | built there spent less moved =>
      have outcome := second spent
      dsimp only
      generalize right.build fuel _ = built at outcome ⊢
      cases outcome with
      | failed spent less went => exact .failed spent less (drifts.goes_on moved went)
      | built behind spent less went =>
        have there := Stream.InStep.kept there went.grown
        refine .built (k := 0) (j := 0) ?_ spent (Nat.zero_le _) (drifts.goes_on moved went)
        first
        | exact Stream.InStep.merged there behind
        | exact Stream.InStep.paired there behind (.nil _)
  | multiplexed source ih =>
    have outcome := ih inStep
    rw [build]
    generalize source.build fuel network = built at outcome ⊢
    cases outcome with
    | failed spent less moved => exact .failed spent less moved
    | @built stream after _ _ there spent less moved =>
      have added := drifts.goes_on moved (advances_confines.adds after stream)
      exact .built (k := 0) (j := 0) (Stream.InStep.multiplexer (.start _)) (InStep.addCell spent there)
        (Nat.zero_le _) added
  | view name =>
    rw [build]
    split
    · exact .failed (j := 0) inStep (Nat.zero_le _) (drifts.stays network)
    · exact plain (.view (.start _)) inStep
  | taken handle =>
    rw [build]
    split
    · exact .failed (j := 0) inStep (Nat.zero_le _) (drifts.stays network)
    · next held found =>
      have besideCalls : KeptBesideCalls (SourcesInStep definitions) Handle.InStep := inStep_besideCalls
      have there := besideCalls.contents (inStep.handles found)
      exact .built (k := 0) (j := 0) (besideCalls.ignoring.fits _ there) (inStep.erase besideCalls.ignoring handle)
        (Nat.zero_le _) (advances_confines.takes network handle)

theorem Blueprint.build_inStep (definitions : Definitions α) (blueprint : Blueprint α) {sum : Nat} {network : Network α}
    (inStep : network.InStep definitions) :
    Postponed.Built (pace definitions) (allowing Handle.InStep) sum network (blueprint.build definitions network) := by
  have drifts := (advances_confines (α := α)).drifts
  cases blueprint with
  | recipe tally body fuel =>
    have tallied : Advances network (network.updateLedger (·.tallyIf tally)) := .aside rfl rfl
    have still : (network.updateLedger (·.tallyIf tally)).InStep definitions := InStep.aside inStep rfl rfl
    have outcome : Postponed.Built (pace definitions) _ sum _ _ := body.build_inStep fuel still
    rw [build]
    generalize body.build fuel _ = built at outcome ⊢
    cases outcome with
    | failed spent less moved => exact .failed spent less (drifts.goes_on tallied moved)
    | built there spent less moved => exact .built there spent less (drifts.goes_on tallied moved)
  | definition name fuel =>
    rw [build]
    split
    · exact .failed (j := 0) inStep (Nat.zero_le _) (drifts.stays network)
    · next body _ => exact body.build_inStep fuel inStep

namespace Stream
variable {definitions : Definitions α} {depth : Nat}

section Layers
variable
  (agree : Agree (pace definitions) (allowing Handle.InStep) (machine definitions depth) (machine definitions depth))
include agree

theorem readCell_inStep {cell place : Nat} {network : Network α} (inStep : network.InStep definitions)
    (behind : place ≤ network.sizeOf cell) :
    (readCell (machine definitions depth) cell place network).2.InStep definitions := by
  have read := readCell_cases (machine definitions depth) cell place network
  generalize outcome : readCell (machine definitions depth) cell place network = told at read ⊢
  cases read with
  | nowhere | settled | out => exact inStep
  | @drawn shared running later result flag after there _ home drew =>
    obtain ⟨inside, lived⟩ := inStep.sound there home
    have same : network.sizeOf cell ≤ (shared.replace (none : Option (Stream α))).buffer.size := (sizeOf_eq there).le
    have emptied := sizeOf_setCell (Array.getElem?_eq_some_iff.mp there).1 same
    have out : (network.setCell cell (shared.replace none)).InStep definitions :=
      InStep.setCell inStep there (Nat.le_refl _) fun _ gone => by cases gone
    have allowed : allowing Handle.InStep 0 running (network.setCell cell (shared.replace none)) := inside.kept emptied
    obtain ⟨_, _, _, _, _, _, drawn, _, fits, back, _, _⟩ :=
      Buffered.draw_agreed (j := 0) agree shared.headBuffered allowed out Nat.zero_lt_one
    cases drew.symm.trans drawn
    have still := machine_along extends_cellwise.confines definitions depth
    have left := (readCell_around still there home shared drew).1
    have lived := lived.read depth behind
    rw [outcome] at lived
    refine InStep.setCell back left (Buffered.size_absorb shared result flag (some later)) fun other same => ?_
    rw [Buffered.absorb_source, Option.some.injEq] at same
    exact ⟨same ▸ fits, lived⟩

theorem reader_inStep (cell : Nat) :
    Agree (pace definitions) (fun _ reader network => reader.Follows (network.sizeOf cell))
      (Reader.machine (readCell (machine definitions depth) cell))
      (Reader.machine (readCell (machine definitions depth) cell)) := by
  refine Reader.agree_following (fun {place _ network} behind inStep _ => ?_) (fun behind read => ?_)
    fun moved => moved.grown cell
  · exact .shown (readCell_inStep agree inStep behind) (Nat.le_refl _)
      (advances_confines.reads (machine_along advances_confines definitions depth) cell place network)
  · have lasts := machine_along outlasts_cellwise.confines definitions depth
    exact settled_ready (readCell_settles lasts behind read nofun)

theorem layer_inStep {stream : Stream α} {network : Network α} (here : stream.InStep network) :
    ∃ allows : Allowance (layer definitions (machine definitions depth) stream).State (Network α),
      Agree (pace definitions) allows (layer definitions (machine definitions depth) stream).machine
        (layer definitions (machine definitions depth) stream).machine ∧
      allows 0 (layer definitions (machine definitions depth) stream).state network ∧
      ∀ {k state after}, allows k state after →
        ((layer definitions (machine definitions depth) stream).put state).InStep after := by
  have postponed := Postponed.agree (fun _ _ _ => True) agree
    (fun {_ _ blueprint _} _ inStep _ => Blueprint.build_inStep definitions blueprint inStep) fun _ _ => trivial
  have postpones : ∀ {k state after}, Postponed.allowing (fun _ _ _ => True) (allowing Handle.InStep) k state after →
      InStep after (Stream.postponed (α := α) state) := by
    rintro k (_ | inside | _) after there
    · exact .waiting
    · exact .forced there
    · exact .spent
  cases here with
  | empty => exact ⟨_, Empty.agree, trivial, fun _ => .empty⟩
  | single => exact ⟨_, Single.agree, trivial, fun _ => .single⟩
  | iterated =>
    refine ⟨_, Iterated.agree fun supply _ _ inStep => ?_, trivial, fun _ => .iterated⟩
    exact ⟨InStep.aside inStep rfl rfl, .aside rfl rfl⟩
  | waiting => exact ⟨_, postponed, trivial, postpones⟩
  | forced inside => exact ⟨_, postponed, inside, postpones⟩
  | spent => exact ⟨_, postponed, trivial, postpones⟩
  | mapped inside => exact ⟨_, Mapped.agree agree fun _ _ => pace_ledger _, inside, fun there => .mapped there⟩
  | merged left right =>
    exact ⟨_, Merged.agree agree agree, ⟨0, 0, Nat.le_refl _, left, right⟩,
      fun ⟨_, _, _, left, right⟩ => .merged left right⟩
  | paired left right lanes =>
    refine ⟨_, (Paired.agree agree agree fun _ _ => pace_ledger _).keeping
      (fun state network => Paired.query_follows state network)
      fun state network => Paired.advance_follows state network,
      ⟨⟨0, 0, Nat.le_refl _, left, right⟩, lanes⟩, ?_⟩
    exact fun ⟨⟨_, _, _, left, right⟩, lanes⟩ => .paired left right lanes
  | multiplexer follows => exact ⟨_, reader_inStep agree _, follows, .multiplexer⟩
  | view follows => exact ⟨_, reader_inStep agree _, follows, .view⟩
  | boxed inside => exact ⟨_, agree, inside, .boxed⟩
  | probed inside =>
    exact ⟨_, Probed.agree (fun inStep => ⟨InStep.aside inStep rfl rfl, .aside rfl rfl⟩)
      (fun inStep => ⟨InStep.aside inStep rfl rfl, .aside rfl rfl⟩) agree, inside, .probed⟩
  | gated inside => exact ⟨_, Gated.agree agree, inside, .gated⟩
  | delayed inside => exact ⟨_, Delayed.agree agree, inside, fun there => .delayed there⟩
  | following tail =>
    refine ⟨_, Followed.agree (Iterated.agree fun supply _ _ inStep => ?_) agree, ⟨0, 0, Nat.le_refl _, trivial, tail⟩,
      fun ⟨_, _, _, _, tail⟩ => .following tail⟩
    exact ⟨InStep.aside inStep rfl rfl, .aside rfl rfl⟩

end Layers

theorem machine_inStep (definitions : Definitions α) (depth : Nat) :
    Agree (pace definitions) (allowing Handle.InStep) (machine definitions depth) (machine definitions depth) := by
  have kept : ∀ {k : Nat} {stream : Stream α} {before after : Network α}, allowing Handle.InStep k stream before →
      Advances before after → allowing Handle.InStep k stream after := fun there moved => InStep.kept there moved.grown
  induction depth with
  | zero => exact ⟨fun there spent _ => .still _ there spent, fun there spent _ => .still _ there spent, kept⟩
  | succ depth ih =>
    refine ⟨fun {k j stream network} here inStep room => ?_, fun {k j stream network} here inStep room => ?_, kept⟩
    all_goals
      obtain ⟨allows, agree, there, puts⟩ := layer_inStep ih here
      have within : k + j < 1 := room
      obtain rfl : k = 0 := by omega
    · exact (agree.query there inStep room).within 0 (Nat.le_refl _) fun _ there => puts there
    · exact (agree.advance there inStep room).within 0 (Nat.le_refl _) fun _ there => puts there

end Stream

theorem Network.blank_inStep (definitions : Definitions α) : (blank : Network α).InStep definitions :=
  ⟨fun _ _ _ there => by simp [blank] at there, fun found => by cases found⟩

theorem Session.steps_inStep (definitions : Definitions α) (depth : Nat) (conversation : List (Step α)) :
    (steps (Stream.machine definitions depth) .blank conversation).2.InStep definitions :=
  steps_allFit inStep_besideCalls (Stream.machine_inStep definitions depth) (blank_inStep definitions)
    fun {_ recipe} _ {_} inStep => recipe.build_inStep 0 inStep

namespace Commons
open Buffered (Place)

-- Whatever has been called so far, by whichever readers, inside whichever calls, abandoned or not: no reader is
-- past the buffer, nor at the end of it with an element shown; where the buffer's last element is said to be the
-- source's own, the source has shown it last and has not moved on; where the buffer is said to be complete, that
-- is what the source said last; and a new element is put where the reader stands that is told it. In a network
-- that holds of every buffer, and of every reader, wherever it is.
theorem readers_stay_in_step :
    (∀ {ω σ : Type} {place : Place ω σ α} {drives : Machine (Commons ω α) σ α → Prop} {world : ω} {stream : σ}
        {now : Commons ω α}, (∀ source, drives source → source.Along (Reenters place drives)) →
        place.find world = some (.start (some stream)) → Reached (Step place drives) (start world) now →
      ∃ shared, Orderly place drives shared now) ∧
    ∀ (definitions : Definitions α) (depth : Nat) (conversation : List (LightestFirst.Step α)) (network : Network α),
      (Session.steps (Stream.machine definitions depth) .blank conversation).2 = network →
      (∀ name held, network.handles.get? name = some held → held.InStep network) ∧
      ∀ cell shared, network.cells[cell]? = some shared →
        (∃ source, shared.source = some source ∧ source.InStep network) ∧
        ∃ first stream now, (Network.place cell).find first = some (.start (some stream)) ∧
          Reached (Step (Network.place cell) (ofNetwork definitions)) (start first) now ∧ now.world = network ∧
          Orderly (Network.place cell) (ofNetwork definitions) shared now ∧
          ∀ followed index answer after, index ≤ shared.buffer.size →
            Stream.readCell (Stream.machine definitions followed) cell index network = (answer, after) →
            ∃ grown, after.cells[cell]? = some grown ∧ (grown.buffer = shared.buffer ∨ ∃ value,
              answer = .ok (.ready value) ∧ index = shared.buffer.size ∧ grown.buffer = shared.buffer.push value) := by
  refine ⟨fun mannered fresh reached => reached_orderly mannered fresh reached, ?_⟩
  rintro definitions depth conversation network rfl
  have inStep := Session.steps_inStep definitions depth conversation
  refine ⟨fun name held found => inStep.handles found, fun cell shared there => ?_⟩
  have home := Session.sources_at_home definitions depth conversation cell shared there
  obtain ⟨source, home⟩ := Option.isSome_iff_exists.mp home
  obtain ⟨inside, first, stream, now, fresh, reached, here⟩ := inStep.sound there home
  obtain ⟨found, orderly⟩ := reached_orderly (fun source => ofNetwork_mannered cell) fresh reached
  have same : (Network.place cell).find now.world = some shared := here ▸ there
  obtain rfl := Option.some.inj (orderly.found.symm.trans same)
  exact ⟨⟨source, home, inside⟩, first, stream, now, fresh, reached, here, orderly,
    fun followed index answer after behind read => read_lands fresh reached same behind (here ▸ read)⟩

section Echo

-- The elements listed, and behind them what the second reader has, one more of each, with the first call refused.
abbrev Echo : Type := Followed (Iterated (List Nat) Nat) (Mapped Unit Nat)

def itself {σ : Type} : Place (Buffered (Option σ) Nat) σ Nat := ⟨some, fun _ shared => shared, fun _ _ => rfl⟩

def uncons (items : List Nat) (now : Commons (Buffered (Option Echo) Nat) Nat) :
    Option Nat × List Nat × Commons (Buffered (Option Echo) Nat) Nat := (items.head?, items.tail, now)

def increment (call value : Nat) (now : Commons (Buffered (Option Echo) Nat) Nat) :
    Attempt Nat × Commons (Buffered (Option Echo) Nat) Nat :=
  if call = 1 then (.error (.refusedCall 1), now) else (.ok (value + 1), now)

def echoing : Machine (Commons (Buffered (Option Echo) Nat) Nat) Echo Nat :=
  Followed.machine (Iterated.machine uncons) (Mapped.machine (viewing itself 1) increment)

def aloud (source : Machine (Commons (Buffered (Option Echo) Nat) Nat) Echo Nat) : Prop := source = echoing

theorem echoing_mannered : ∀ source, aloud source → source.Along (Reenters itself aloud) := by
  rintro _ rfl
  have drifts : Drifts (Reenters itself aloud) := reenters_drifts
  have driven : aloud echoing := rfl
  refine Followed.along drifts (Iterated.along drifts fun _ => drifts.stays) ?_
  refine Mapped.along drifts (viewing_along driven 1) fun call value now => ?_
  rw [increment]
  split
  · exact drifts.stays now
  · exact drifts.stays now

def echo : Echo := .after (.start ()) (.start [1])

def echoes : List (LightestFirst.Step Nat) :=
  [.define "n" (.multiplexed (.following [1] (.deferred none (.mapped
      (fun call value ledger => if call = 1 then (.error (.refusedCall 1), ledger) else (.ok (value + 1), ledger))
      (.view "n"))))), .addView "n" "v", .query "n", .advance "n", .query "n", .query "n"]

theorem echo_in_step :
    (∃ now shared, Reached (Step itself aloud) (start (.start (some echo))) now ∧ now.readers = [⟨1, true⟩, ⟨0, true⟩] ∧
      shared.buffer = #[1, 2] ∧ Orderly itself aloud shared now) ∧
    ∃ network shared now, (Session.steps (Stream.machine [] 6) .blank echoes).2 = network ∧
      network.handles.get? "n" = some (.stream (.multiplexer 0 ⟨1, true⟩)) ∧
      (Handle.stream (.multiplexer 0 ⟨1, true⟩)).InStep network ∧ shared.buffer = #[1, 2] ∧ now.world = network ∧
      Orderly (Network.place 0) (ofNetwork []) shared now := by
  have shown : ask itself echoing ⟨0, false⟩ ⟨.start (some echo), [⟨0, false⟩, ⟨0, false⟩], []⟩ =
      (.ok (.ready 1), ⟨0, true⟩, ⟨⟨some ⟨⟨[], some (some 1)⟩, true, .start ()⟩, #[1], false, true⟩,
        [⟨0, false⟩, ⟨0, false⟩], [.asked (.ok (.ready 1))]⟩) := rfl
  have passed : Reader.advance ⟨0, true⟩
      (⟨⟨some ⟨⟨[], some (some 1)⟩, true, .start ()⟩, #[1], false, true⟩,
        [⟨0, true⟩, ⟨0, false⟩], [.asked (.ok (.ready 1))]⟩ : Commons (Buffered (Option Echo) Nat) Nat) =
      (.ok (), ⟨1, false⟩, ⟨⟨some ⟨⟨[], some (some 1)⟩, true, .start ()⟩, #[1], false, true⟩,
        [⟨0, true⟩, ⟨0, false⟩], [.asked (.ok (.ready 1))]⟩) := rfl
  have refused : ask itself echoing ⟨1, false⟩
      ⟨⟨some ⟨⟨[], some (some 1)⟩, true, .start ()⟩, #[1], false, true⟩,
        [⟨1, false⟩, ⟨0, false⟩], [.asked (.ok (.ready 1))]⟩ =
      (.error (.refusedCall 1), ⟨1, false⟩, ⟨⟨some ⟨⟨[], some none⟩, false, ⟨(), none, 1⟩⟩, #[1], false, false⟩,
        [⟨1, false⟩, ⟨0, true⟩],
        [.asked (.error (.refusedCall 1)), .advanced (.ok ()), .asked (.ok (.ready 1))]⟩) := rfl
  have echoed : ask itself echoing ⟨1, false⟩
      ⟨⟨some ⟨⟨[], some none⟩, false, ⟨(), none, 1⟩⟩, #[1], false, false⟩, [⟨1, false⟩, ⟨0, true⟩],
        [.asked (.error (.refusedCall 1)), .advanced (.ok ()), .asked (.ok (.ready 1))]⟩ =
      (.ok (.ready 2), ⟨1, true⟩, ⟨⟨some ⟨⟨[], some none⟩, false, ⟨(), some (.ready 2), 2⟩⟩, #[1, 2], false, true⟩,
        [⟨1, false⟩, ⟨0, true⟩],
        [.asked (.ok (.ready 2)), .asked (.error (.refusedCall 1)), .advanced (.ok ()),
          .asked (.ok (.ready 1))]⟩) := rfl
  have begun : Reached (Step itself aloud) (start (.start (some echo))) _ := Reached.start.step .viewed
  have once := begun.step (.asked rfl (rfl : [Reader.start, .start][0]? = _) shown)
  have onward := once.step (.advanced (rfl : [⟨0, true⟩, Reader.start][0]? = _) passed)
  have abandoned := onward.step (.asked rfl (rfl : [⟨1, false⟩, Reader.start][0]? = _) refused)
  have reached := abandoned.step (.asked rfl (rfl : [⟨1, false⟩, Reader.mk 0 true][0]? = _) echoed)
  obtain ⟨shared, orderly⟩ := readers_stay_in_step.1 echoing_mannered rfl reached
  have found := orderly.found
  cases found
  obtain ⟨held, buffers⟩ := readers_stay_in_step.2 [] 6 echoes _ rfl
  obtain ⟨-, _, _, now, -, -, here, told, -⟩ := buffers 0 _ rfl
  exact ⟨⟨_, _, reached, rfl, rfl, orderly⟩, _, _, now, rfl, rfl, held "n" _ rfl, rfl, here, told⟩

end Echo

end Commons

end LightestFirst
