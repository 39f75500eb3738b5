import LightestFirst.Proofs.Networks.Watching
-- Whole conversations about networks whose streams may read what they feed. What the recipes of a
-- conversation come to in all bounds how far any call in it goes, whatever reads what.
namespace LightestFirst
variable {α β : Type}

def Step.Woven : Step α → Prop
  | .define _ recipe => recipe.Woven
  | _ => True

def Step.size : Step α → Nat
  | .define _ recipe => recipe.size
  | .iterate _ => 1
  | .release _ => 2
  | _ => 0

namespace Session

def size : List (Step α) → Nat
  | [] => 0
  | first :: rest => first.size + size rest

variable {bound limit : Nat} {network : Network α} {handle : String}

inductive Alike (bound : Nat) : Reply α × Network α → Reply α × Network α → Prop where
  | alike {answer : Reply α} {network : Network α} (carries : network.Carries [] bound) :
      Alike bound (answer, network) (answer, network)

theorem Alike.same {outcome : Reply α × Network α} (carries : outcome.2.Carries [] bound) : Alike bound outcome outcome :=
  .alike carries

theorem onHandle_alike {τ : Type} {kind : Handle.Kind α τ} {allowing : Allowance τ (Network α)}
    (holds : ∀ {k state network}, allowing k state network ↔ (kind.put state).Fits network.cells.size k)
    {form : β → Reply α} {call call' : τ → Network α → Attempt β × τ × Network α}
    (calls : ∀ {k load state network}, allowing k state network → network.Carries [] load → k + load < limit →
      Agreed (Network.budget [] limit) allowing (k + load) network (call state network) (call' state network))
    (carries : network.Carries [] bound) (room : bound < limit) :
    Alike bound (onHandle kind handle form call network) (onHandle kind handle form call' network) := by
  rw [onHandle, onHandle]
  split
  · exact .alike carries
  · next held found =>
    split
    · exact .alike carries
    · next state fitting =>
      obtain rfl := kind.eq_put fitting
      obtain ⟨x, load, fits, less, rest⟩ := carries.takes found
      have allowed : allowing x state { network with handles := network.handles.erase handle } := holds.mpr fits
      have called := calls allowed rest (by omega)
      generalize call state _ = outcome, call' state _ = outcome' at called ⊢
      cases called with
      | @agreed _ state after k _ there spent below moved =>
        exact .alike ((spent.puts (holds.mp there) handle).wider (by omega))

theorem observe_carries {form : β → Reply α} {look : Stream α → Network α → Option β}
    (carries : network.Carries [] bound) : (observe handle form look network).2.Carries [] bound := by
  rw [observe_network]
  exact carries

theorem derive_carries {fresh : String} {make : Stream α → Option (Stream α)}
    (makes : ∀ {cells k stream made}, Stream.Fits cells k stream → make stream = some made → made.Fits cells 0)
    (carries : network.Carries [] bound) : (derive handle fresh make network).2.Carries [] bound := by
  rw [derive]
  split
  · exact carries
  · exact carries
  · next stream found =>
    split
    · exact carries
    · next made derived =>
      obtain ⟨x, _, fits, _⟩ := carries.takes found
      have there : (Handle.stream made).Fits network.cells.size 0 := makes fits derived
      exact (carries.puts there fresh).wider (by omega)

theorem rehandle_carries {change : Handle α → Handle α} {more : Nat}
    (changes : ∀ {cells k held}, Handle.Fits cells k held → (change held).Fits cells (k + more))
    (carries : network.Carries [] bound) : (rehandle handle change network).2.Carries [] (bound + more) := by
  rw [rehandle]
  split
  · exact carries.wider (Nat.le_add_right _ _)
  · next held found =>
    obtain ⟨x, load, fits, less, rest⟩ := carries.takes found
    have there : (change held).Fits network.cells.size (x + more) := changes fits
    have back := rest.puts there handle
    rw [Table.put_erase] at back
    exact back.wider (by omega)

theorem define_carries {recipe : Recipe α} (woven : recipe.Woven) (carries : network.Carries [] bound) :
    (define handle recipe network).2.Carries [] (bound + recipe.size) := by
  have built := Recipe.build_fits 0 woven 0 carries
  rw [define]
  generalize recipe.build 0 network = outcome at built ⊢
  cases built with
  | failed spent below moved => exact spent.wider (by omega)
  | @built stream after x load there spent below moved =>
    have held : (Handle.stream stream).Fits after.cells.size x := there
    have stored := (spent.puts held handle).wider (by omega : x + load ≤ bound + recipe.size)
    dsimp only
    cases there with
    | multiplexer inside => exact stored.named inside handle
    | _ => exact stored

theorem step_alike {one other : Machine (Network α) (Stream α) α}
    (agree : Agree (Network.budget [] limit) Stream.allows one other) {step : Step α} (woven : step.Woven)
    (carries : network.Carries [] bound) (room : bound < limit) :
    Alike (bound + step.size) (Session.step one step network) (Session.step other step network) := by
  have streams : ∀ {k stream} {network : Network α},
      Stream.allows k stream network ↔ (Handle.Kind.streams.put stream).Fits network.cells.size k := .rfl
  have iterations : ∀ {k iteration} {network : Network α}, Iteration.allowing Stream.allows k iteration network ↔
      (Handle.Kind.iterations.put iteration).Fits network.cells.size k := .rfl
  cases step with
  | define handle recipe => exact .same (define_carries woven carries)
  | drop handle =>
    rw [Session.step, Session.step]
    split
    · exact .alike carries
    · exact .alike (carries.erased handle)
  | query handle => exact onHandle_alike streams agree.query carries room
  | advance handle => exact onHandle_alike streams agree.advance carries room
  | inspect handle => exact onHandle_alike streams agree.query carries room
  | drain handle limit retries => exact onHandle_alike streams (Session.drain_agreed agree limit retries [] 0) carries room
  | borrow handle limit =>
    rw [Session.step, Session.step]
    refine onHandle_alike streams (fun {k load stream network} there lent room => ?_) carries room
    have starts : Iteration.allowing Stream.allows k (.start stream : Iteration _ α) network := there
    have taken := Iteration.takeOnto_agreed agree [] limit starts lent room
    simp only [Iteration.take]
    generalize Iteration.takeOnto one [] limit _ network = outcome,
      Iteration.takeOnto other [] limit _ network = outcome' at taken ⊢
    cases taken with
    | agreed there spent below moved => exact .agreed there spent below moved
  | iterate handle => exact .same (rehandle_carries Handle.contents_fits carries)
  | release handle =>
    exact .same (rehandle_carries (fun fits => Stream.Fits.boxed (Handle.contents_fits fits) (Nat.lt_succ_self _)) carries)
  | hasNext handle => exact onHandle_alike iterations (Iteration.peek_agreed agree) carries room
  | isPending handle => exact onHandle_alike iterations (Iteration.peek_agreed agree) carries room
  | peek handle => exact onHandle_alike iterations (Iteration.peek_agreed agree) carries room
  | next handle => exact onHandle_alike iterations (Iteration.takeNext_agreed agree) carries room
  | takeNext handle => exact onHandle_alike iterations (Iteration.takeNext_agreed agree) carries room
  | collect handle limit => exact onHandle_alike iterations (Iteration.takeOnto_agreed agree [] limit) carries room
  | addView multiplexer view =>
    refine .same (derive_carries (fun {_ _ stream _} fits made => ?_) carries)
    cases fits with
    | multiplexer inside =>
      obtain rfl := Option.some.inj made
      exact .view inside
    | _ => cases made
  | fork view copy =>
    refine .same (derive_carries (fun {_ _ stream _} fits made => ?_) carries)
    cases fits with
    | view inside =>
      obtain rfl := Option.some.inj made
      exact .view inside
    | _ => cases made
  | buffered multiplexer => exact .same (observe_carries carries)
  | exhausted multiplexer => exact .same (observe_carries carries)
  | position view => exact .same (observe_carries carries)
  | lanes product => exact .same (observe_carries carries)
  | forced deferred => exact .same (observe_carries carries)
  | openGate | closeGate => exact .alike carries.ledger
  | counter name => exact .alike carries

theorem steps_alike {one other : Machine (Network α) (Stream α) α}
    (agree : Agree (Network.budget [] limit) Stream.allows one other) (conversation : List (Step α))
    (woven : ∀ step ∈ conversation, step.Woven) (carries : network.Carries [] bound)
    (room : bound + size conversation < limit) :
    steps one network conversation = steps other network conversation := by
  induction conversation generalizing bound network with
  | nil => rfl
  | cons first rest ih =>
    rw [size] at room
    have alike := step_alike agree (woven first List.mem_cons_self) carries (by omega)
    rw [steps, steps]
    generalize step one first network = outcome, step other first network = outcome' at alike ⊢
    cases alike with
    | alike carries =>
      dsimp only
      rw [ih (fun step among => woven step (List.mem_cons_of_mem _ among)) carries (by omega)]

-- Whatever would be done where a source is called while it runs, where one is missing that does not run, or where
-- there are more levels than the recipes account for, it makes no difference: none of it is met. A reader asked
-- while the source of its buffer is running is answered from the buffer or told to wait, and nothing else happens.
theorem no_source_runs_inside_itself (definitions : Definitions α) (conversation : List (Step α)) {depth : Nat}
    (woven : ∀ step ∈ conversation, step.Woven) (deep : size conversation < depth)
    (astray : Network α → Attempt (Status α) × Network α) (beyond : Machine (Network α) (Stream α) α) :
    steps (Stream.machine definitions depth) .blank conversation =
        steps (Stream.watched definitions astray beyond depth []) .blank conversation ∧
      ∀ (network : Network α) (cell : Nat) (shared : Buffered (Option (Stream α)) α), network.cells[cell]? = some shared →
        shared.source = none → ∀ (followed : Nat) (reader : Reader) (status : Status α),
          (shared.settled? reader.index).getD .pending = status →
          (Stream.machine definitions (followed + 1)).query (.view cell reader) network =
              (.ok status, .view cell ⟨reader.index, status.isReady⟩, network) ∧
            (Stream.machine definitions (followed + 1)).query (.multiplexer cell reader) network =
              (.ok status, .multiplexer cell ⟨reader.index, status.isReady⟩, network) := by
  constructor
  · have nothing : (Network.blank : Network α).Carries [] 0 :=
      ⟨fun _ => 0, 0, ⟨fun known => (nomatch known), fun _ => rfl, fun there => (nomatch there)⟩, .nil, Nat.le_refl 0⟩
    have agree := Stream.machine_watched definitions astray beyond depth []
    exact steps_alike agree conversation woven nothing (by omega)
  · rintro network cell shared there out followed reader status rfl
    have answered : Stream.readCell (Stream.machine definitions followed) cell reader.index network = (.ok _, network) :=
      Stream.readCell_running there out reader.index
    simp only [Stream.machine_succ, Stream.level, Stream.layer, Reader.machine, Reader.query, answered]
    exact ⟨rfl, rfl⟩

-- Two buffers, each of them read by the source of the other, and one whose source goes through the elements it has
-- while it runs.
def circles : List (Step Nat) :=
  [.define "one" (.multiplexed (.merged Nat.ble (.iterated (.ofList [1, 2] none)) (.deferred none (.view "other")))),
    .define "other" (.multiplexed (.mapped (fun _ value ledger => (.ok (value + 1), ledger)) (.view "one"))),
    .define "n" (.multiplexed (.following [1] (.deferred none (.mapped
      (fun _ value ledger => (.ok (value + 1), ledger)) (.view "n"))))),
    .query "one", .query "other", .query "n", .advance "n", .query "n", .advance "n", .query "n", .buffered "n"]

theorem circles_wait_or_go_on : (∀ step ∈ circles, step.Woven) ∧ size circles < 16 ∧
    (steps (Stream.machine [] 16) .blank circles).1 = [.done, .done, .done, .status .pending, .status .pending,
      .status (.ready 1), .done, .status (.ready 2), .done, .status (.ready 3), .number 3] ∧
    steps (Stream.machine [] 16) .blank circles =
      steps (Stream.watched [] (fun _ => (.error .unbuilt, .blank)) Stream.unreached 16 []) .blank circles := by
  have woven : ∀ step ∈ circles, step.Woven := by simp [circles, Step.Woven, Recipe.Woven]
  have small : size circles < 16 := by decide
  exact ⟨woven, small, rfl, (no_source_runs_inside_itself [] circles woven small _ _).1⟩

end Session
end LightestFirst
