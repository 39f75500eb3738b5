import Mathlib.Data.Seq.Basic
import LightestFirst.Grammar.Enumeration
import LightestFirst.Proofs.Flows.Lists
import LightestFirst.Proofs.KeptAnswers
import LightestFirst.Proofs.Sharing
-- Taking from a stream up to a limit, and going on taking from what is left of it. Between the two goes the
-- bridge is given up; nothing that it kept is missed, because a stream says again what it has said.
namespace LightestFirst
variable {ω σ α : Type}

-- The stream shows these elements in turn, each of them asked for once and then passed.
inductive Machine.Shows (machine : Machine ω σ α) : σ → ω → List α → σ → ω → Prop where
  | nothing {state : σ} {world : ω} : Shows machine state world [] state world
  | element {state middle later last : σ} {world between after final : ω} {value : α} {items : List α}
      (asked : machine.query state world = (.ok (.ready value), middle, between))
      (passed : machine.advance middle between = (.ok (), later, after))
      (rest : Shows machine later after items last final) : Shows machine state world (value :: items) last final

namespace Machine.Shows
variable {machine : Machine ω σ α} {state last : σ} {world final : ω} {items : List α}

theorem append {further : σ} {beyond : ω} {others : List α} (shows_ : machine.Shows state world items last final)
    (rest : machine.Shows last final others further beyond) : machine.Shows state world (items ++ others) further beyond := by
  induction shows_ with
  | nothing => exact rest
  | element asked passed _ ih => exact .element asked passed (ih rest)

theorem taken (shows_ : machine.Shows state world items last final) (front : List α) (limit : Nat) :
    Iteration.takeOnto machine front (items.length + limit) (.start state) world =
      Iteration.takeOnto machine (items.reverse ++ front) limit (.start last) final := by
  induction shows_ generalizing front with
  | nothing => simp
  | @element state middle later last world between after final value items asked passed _ ih =>
    rw [List.length_cons, Nat.add_right_comm, Iteration.takeOnto]
    have once : Iteration.takeNext machine (.start state) world = (.ok (.ok value), .start later, after) := by
      simp [Iteration.takeNext, Iteration.peek, Iteration.start, asked, passed]
    rw [once]
    dsimp only
    rw [ih, List.reverse_cons, List.append_assoc]
    rfl

theorem take_full (shows_ : machine.Shows state world items last final) :
    Iteration.take machine items.length (.start state) world = (.ok (items, none), .start last, final) := by
  have taken := shows_.taken [] 0
  rw [Nat.add_zero, Iteration.takeOnto] at taken
  rw [Iteration.take, taken]
  simp

theorem take_ended (shows_ : machine.Shows state world items last final) {limit : Nat} (room : items.length < limit)
    {later : σ} {after : ω} (asked : machine.query last final = (.ok .ended, later, after)) :
    Iteration.take machine limit (.start state) world =
      (.ok (items, some .exhausted), ⟨later, some .ended⟩, after) := by
  obtain ⟨more, rfl⟩ := Nat.exists_eq_add_of_lt room
  rw [Iteration.take, Nat.add_assoc, shows_.taken, Iteration.takeOnto]
  simp [Iteration.takeNext, Iteration.peek, Iteration.start, asked, Status.isStable, Status.isPending]

theorem take_pending (shows_ : machine.Shows state world items last final) {limit : Nat} (room : items.length < limit)
    {later : σ} {after : ω} (asked : machine.query last final = (.ok .pending, later, after)) :
    Iteration.take machine limit (.start state) world = (.ok (items, some .pending), .start later, after) := by
  obtain ⟨more, rfl⟩ := Nat.exists_eq_add_of_lt room
  rw [Iteration.take, Nat.add_assoc, shows_.taken, Iteration.takeOnto]
  simp [Iteration.takeNext, Iteration.peek, Iteration.start, asked, Status.isStable, Status.isPending]

theorem counted (shows_ : machine.Shows state world items last final) (queries advances : Nat) :
    (Counted.machine machine).Shows ⟨state, queries, advances⟩ world items
      ⟨last, queries + items.length, advances + items.length⟩ final := by
  induction shows_ generalizing queries advances with
  | nothing => exact .nothing
  | @element state middle later last world between after final value items asked passed _ ih =>
    have rest := ih (queries + 1) (advances + 1)
    rw [Nat.add_assoc, Nat.add_assoc, Nat.add_comm 1] at rest
    have askedOnce : (Counted.machine machine).query ⟨state, queries, advances⟩ world =
        (.ok (.ready value), ⟨middle, queries + 1, advances⟩, between) := by
      simp only [Counted.machine, asked]
      rfl
    have passedOnce : (Counted.machine machine).advance ⟨middle, queries + 1, advances⟩ between =
        (.ok (), ⟨later, queries + 1, advances + 1⟩, after) := by
      simp only [Counted.machine, passed]
      rfl
    exact .element askedOnce passedOnce rest

end Machine.Shows

-- A stream that gives a stable answer again when it is asked again. Nothing but a pending answer holds it up.
structure Steady (setting : Setting ω) (machine : Machine ω σ α) (course : Course α) (stands : Standing σ ω) : Prop
    extends Plays setting machine course stands where
  unfailing : ∀ {fault before after}, ¬ setting.hinders (.fault fault) before after
  again : ∀ {place seen state world status later after}, stands place seen state world → setting.sound world →
    machine.query state world = (.ok status, later, after) → status.isStable = true →
    (machine.query later after).1 = .ok status

section Reading
variable {setting : Setting ω} {machine : Machine ω σ α} {course : Course α} {stands : Standing σ ω}

-- Why the reading of a stream stops where it does: there is room for no more, or the answer is no element.
inductive Stops (setting : Setting ω) (machine : Machine ω σ α) (course : Course α) (stands : Standing σ ω)
    (place limit : Nat) (items : List α) (last : σ) (final : ω) : Prop where
  | full (reached : items.length = limit) (sound : setting.sound final)
      (there : ∃ seen, stands (place + items.length) seen last final)
  | ended {later : σ} {after : ω} (room : items.length < limit)
      (asked : machine.query last final = (.ok .ended, later, after)) (finished : course (place + items.length) = .ended)
      (again : (machine.query later after).1 = .ok .ended)
  | pending {later : σ} {after : ω} (room : items.length < limit)
      (asked : machine.query last final = (.ok .pending, later, after))

theorem Stops.earlier {place limit : Nat} {value : α} {items : List α} {last : σ} {final : ω}
    (stops : Stops setting machine course stands (place + 1) limit items last final) :
    Stops setting machine course stands place (limit + 1) (value :: items) last final := by
  have same : place + 1 + items.length = place + (value :: items).length := by rw [List.length_cons]; omega
  cases stops with
  | full reached sound there => exact .full (congrArg (· + 1) reached) sound (same ▸ there)
  | ended room asked finished again => exact .ended (Nat.succ_lt_succ room) asked (same ▸ finished) again
  | pending room asked => exact .pending (Nat.succ_lt_succ room) asked

theorem Steady.reads (steady : Steady setting machine course stands) (limit : Nat) {place : Nat} {seen : Bool} {state : σ}
    {world : ω} (there : stands place seen state world) (sound : setting.sound world) :
    ∃ items last final, machine.Shows state world items last final ∧
      (∀ i value, items[i]? = some value → course (place + i) = .ready value) ∧
      Stops setting machine course stands place limit items last final := by
  induction limit generalizing place seen state world with
  | zero => exact ⟨[], state, world, .nothing, nofun, .full rfl sound ⟨seen, there⟩⟩
  | succ limit ih =>
    have told := steady.query there sound
    generalize asked : machine.query state world = outcome at told
    cases told with
    | failed hinders => exact absurd hinders steady.unfailing
    | @answered status middle between answers fine _ standing =>
      cases status with
      | pending => exact ⟨[], state, world, .nothing, nofun, .pending (Nat.succ_pos limit) asked⟩
      | ended =>
        have finished := answers.of_stable rfl
        have again := steady.again there sound asked rfl
        exact ⟨[], state, world, .nothing, nofun, .ended (Nat.succ_pos limit) asked finished again⟩
      | ready value =>
        have shown := answers.of_stable rfl
        have passed := steady.advance standing (by rw [shown]; rfl) fine
        generalize advanced : machine.advance middle between = outcome at passed
        cases passed with
        | passed fine _ standing =>
          obtain ⟨items, last, final, further, elements, stops⟩ := ih standing fine
          refine ⟨value :: items, last, final, .element asked advanced further, ?_, stops.earlier⟩
          intro i other found
          cases i with
          | zero =>
            cases found
            exact shown
          | succ i =>
            rw [← elements i other found]
            exact congrArg course (by omega)

theorem Stops.counted {place limit : Nat} {items : List α} {state last : σ} {world final : ω}
    (stops : Stops setting machine course stands place limit items last final)
    (shows_ : machine.Shows state world items last final) : ∃ short counted after,
      Iteration.take (Counted.machine machine) limit (.start (.start state)) world = (.ok (items, short), counted, after) ∧
      (Iteration.take machine limit (.start state) world).1 = .ok (items, short) ∧ items.length ≤ limit ∧
      counted.stream.advances = items.length ∧
      counted.stream.queries = items.length + if items.length = limit then 0 else 1 := by
  have counting : (Counted.machine machine).Shows (.start state) world items ⟨last, items.length, items.length⟩ final := by
    have counted := shows_.counted 0 0
    rwa [Nat.zero_add] at counted
  have another : ∀ {answer later after}, machine.query last final = (answer, later, after) →
      (Counted.machine machine).query ⟨last, items.length, items.length⟩ final =
        (answer, ⟨later, items.length + 1, items.length⟩, after) := by
    intro answer later after asked
    simp only [Counted.machine, asked]
    rfl
  cases stops with
  | full reached =>
    subst reached
    refine ⟨_, _, _, counting.take_full, ?_, Nat.le_refl _, rfl, ?_⟩
    · rw [shows_.take_full]
    · rw [if_pos rfl]
      rfl
  | ended room asked =>
    refine ⟨_, _, _, counting.take_ended room (another asked), ?_, Nat.le_of_lt room, rfl, ?_⟩
    · rw [shows_.take_ended room asked]
    · rw [if_neg (Nat.ne_of_lt room)]
  | pending room asked =>
    refine ⟨_, _, _, counting.take_pending room (another asked), ?_, Nat.le_of_lt room, rfl, ?_⟩
    · rw [shows_.take_pending room asked]
    · rw [if_neg (Nat.ne_of_lt room)]
      rfl

theorem taken_eq {s : Stream'.Seq α} {place limit : Nat} {items : List α}
    (elements : ∀ i value, items[i]? = some value → Course.ofAnswers s.get? (place + i) = .ready value)
    (short : items.length ≤ limit) (finished : items.length < limit → s.get? (place + items.length) = none) :
    items = (s.drop place).take limit := by
  apply List.ext_getElem?
  intro i
  by_cases inside : i < items.length
  · have found : items[i]? = some items[i] := List.getElem?_eq_getElem inside
    rw [found, Stream'.Seq.getElem?_take, if_pos (by omega), Stream'.Seq.drop_get?,
      Iterated.answer_eq_ready.mp (elements i _ found)]
  · rw [List.getElem?_eq_none (by omega), Stream'.Seq.getElem?_take]
    split
    · next within =>
      rw [Stream'.Seq.drop_get?]
      exact (s.le_stable (by omega) (finished (by omega))).symm
    · rfl

theorem Stops.taken {place limit : Nat} {items : List α} {state last : σ} {world final : ω}
    (stops : Stops setting machine course stands place limit items last final)
    (shows_ : machine.Shows state world items last final) : ∃ short bridge after,
      ∀ front first before, machine.Shows first before front state world →
        Iteration.take machine (front.length + limit) (.start first) before = (.ok (front ++ items, short), bridge, after) := by
  cases stops with
  | full reached =>
    refine ⟨none, .start last, final, fun front first before earlier => ?_⟩
    have full := (earlier.append shows_).take_full
    rwa [List.length_append, reached] at full
  | @ended later after room asked =>
    refine ⟨some .exhausted, ⟨later, some .ended⟩, after, fun front first before earlier =>
      (earlier.append shows_).take_ended ?_ asked⟩
    rw [List.length_append]
    omega
  | @pending later after room asked =>
    refine ⟨some .pending, .start later, after, fun front first before earlier =>
      (earlier.append shows_).take_pending ?_ asked⟩
    rw [List.length_append]
    omega

theorem take_past_end {state : σ} {world : ω} (ended : (machine.query state world).1 = .ok .ended) (limit : Nat) :
    (Iteration.take machine limit (.start state) world).1 = .ok ([], if limit = 0 then none else some .exhausted) := by
  cases limit with
  | zero => rfl
  | succ limit =>
    have asked : machine.query state world = (.ok .ended, (machine.query state world).2) := Prod.ext ended rfl
    rw [Machine.Shows.nothing.take_ended (Nat.succ_pos limit) asked]
    rfl

end Reading

namespace Grammar

theorem ofTaken_taken {items : List Derivation} {short : Option Shortage} (stopped : short ≠ some .pending) :
    ofTaken (.ok (items, short)) = .ok items := by
  rcases short with _ | _ | _
  · rfl
  · rfl
  · exact absurd rfl stopped

end Grammar

namespace Flow
variable {flow : Flow ω Derivation} {setting : Setting ω} {s : Stream'.Seq Derivation} {stands : Standing flow.State ω}
  {place : Nat} {seen : Bool} {world : ω}

theorem take_eq {limit : Nat} {outcome : Attempt (List Derivation × Option Shortage)}
    {iteration : Iteration flow.State Derivation} {after : ω}
    (taken : Iteration.take flow.machine limit (.start flow.state) world = (outcome, iteration, after)) :
    flow.take limit world = (outcome, { flow with state := iteration.stream }, after) := by
  simp only [take, taken]

theorem take_result (flow : Flow ω α) (limit : Nat) (world : ω) :
    (flow.take limit world).1 = (Iteration.take flow.machine limit (.start flow.state) world).1 := rfl

theorem take_outcome (steady : Steady setting flow.machine (.ofAnswers s.get?) stands)
    (there : stands place seen flow.state world) (sound : setting.sound world) (limit : Nat) :
    ∃ items last final, flow.machine.Shows flow.state world items last final ∧
      (items.length < limit ∧ (flow.machine.query last final).1 = .ok .pending ∧
          Grammar.ofTaken (flow.take limit world).1 = .error (.stalled items.length) ∨
        items = (s.drop place).take limit ∧ Grammar.ofTaken (flow.take limit world).1 = .ok items) := by
  obtain ⟨items, last, final, shows_, elements, stops⟩ := steady.reads limit there sound
  refine ⟨items, last, final, shows_, ?_⟩
  cases stops with
  | full reached =>
    subst reached
    refine .inr ⟨taken_eq elements (Nat.le_refl _) ?_, ?_⟩
    · intro more
      exact absurd more (Nat.lt_irrefl _)
    · rw [take_eq shows_.take_full]
      rfl
  | ended room asked finished =>
    have nothing := Iterated.answer_eq_ended.mp finished
    refine .inr ⟨taken_eq elements (Nat.le_of_lt room) fun _ => nothing, ?_⟩
    rw [take_eq (shows_.take_ended room asked)]
    rfl
  | pending room asked =>
    refine .inl ⟨room, by rw [asked], ?_⟩
    rw [take_eq (shows_.take_pending room asked)]
    rfl

theorem stalls_iff (steady : Steady setting flow.machine (.ofAnswers s.get?) stands)
    (there : stands place seen flow.state world) (sound : setting.sound world) (limit count : Nat) :
    Grammar.ofTaken (flow.take limit world).1 = .error (.stalled count) ↔
      count < limit ∧ ∃ items later after, items.length = count ∧ flow.machine.Shows flow.state world items later after ∧
        (flow.machine.query later after).1 = .ok .pending := by
  constructor
  · intro stalled
    obtain ⟨items, last, final, shows_, ⟨room, held, outcome⟩ | ⟨-, outcome⟩⟩ := take_outcome steady there sound limit
    · rw [outcome] at stalled
      cases stalled
      exact ⟨room, items, last, final, rfl, shows_, held⟩
    · rw [outcome] at stalled
      cases stalled
  · rintro ⟨room, items, later, after, rfl, shows_, held⟩
    have asked : flow.machine.query later after = (.ok .pending, (flow.machine.query later after).2) := Prod.ext held rfl
    rw [take_eq (shows_.take_pending room asked)]
    rfl

theorem stalls_or_takes (steady : Steady setting flow.machine (.ofAnswers s.get?) stands)
    (there : stands place seen flow.state world) (sound : setting.sound world) (limit : Nat) :
    (∃ count, Grammar.ofTaken (flow.take limit world).1 = .error (.stalled count)) ∨
      Grammar.ofTaken (flow.take limit world).1 = .ok ((s.drop place).take limit) := by
  obtain ⟨items, last, final, -, ⟨-, -, outcome⟩ | ⟨next, outcome⟩⟩ := take_outcome steady there sound limit
  · exact .inl ⟨items.length, outcome⟩
  · rw [← next]
    exact .inr outcome

theorem goes_on (steady : Steady setting flow.machine (.ofAnswers s.get?) stands)
    (there : stands place seen flow.state world) (sound : setting.sound world) {first : Nat} {xs : List Derivation}
    (taken : Grammar.ofTaken (flow.take first world).1 = .ok xs) (second : Nat) (ys : List Derivation) :
    Grammar.ofTaken ((flow.take first world).2.1.take second (flow.take first world).2.2).1 = .ok ys ↔
      Grammar.ofTaken (flow.take (first + second) world).1 = .ok (xs ++ ys) := by
  obtain ⟨items, last, final, shows_, -, stops⟩ := steady.reads first there sound
  cases stops with
  | full reached fine standing =>
    subst reached
    rw [take_eq shows_.take_full] at taken ⊢
    cases taken
    obtain ⟨seen, standing⟩ := standing
    obtain ⟨others, _, _, further, -, stops⟩ := steady.reads second standing fine
    obtain ⟨short, bridge, after, goes⟩ := stops.taken further
    have alone := goes [] _ _ .nothing
    rw [List.length_nil, Nat.zero_add] at alone
    have alone : ({ flow with state := last } : Flow ω Derivation).take second final = (.ok (others, short), _, _) :=
      take_eq alone
    rw [take_eq (goes _ _ _ shows_)]
    dsimp only [Iteration.start]
    rw [alone]
    by_cases stopped : short = some .pending
    · subst stopped
      exact ⟨nofun, nofun⟩
    · rw [Grammar.ofTaken_taken stopped, Grammar.ofTaken_taken stopped]
      simp
  | @ended later after room asked finished again =>
    rw [take_eq (shows_.take_ended room asked)] at taken ⊢
    cases taken
    rw [take_eq (shows_.take_ended (Nat.lt_add_right second room) asked)]
    have nothing : Grammar.ofTaken (({ flow with state := later } : Flow ω Derivation).take second after).1 = .ok [] := by
      rw [take_result, take_past_end again second]
      exact Grammar.ofTaken_taken (by split <;> nofun)
    dsimp only
    rw [nothing, Grammar.ofTaken_taken (by decide)]
    simp
  | pending room asked =>
    rw [take_eq (shows_.take_pending room asked)] at taken
    cases taken

-- To take is to ask for each element once and to pass it once, and to ask once more only where there is room
-- for more. It stalls on the first pending answer and otherwise gives what is next in the sequence; and to go on
-- from there with what is left of the stream is to have taken all of it in one go.
theorem taking_in_two_goes (steady : Steady setting flow.machine (.ofAnswers s.get?) stands)
    (there : stands place seen flow.state world) (sound : setting.sound world) (first second : Nat) :
    (∃ items short counted after, Iteration.take (Counted.machine flow.machine) first (.start (.start flow.state)) world =
        (.ok (items, short), counted, after) ∧
      (flow.take first world).1 = .ok (items, short) ∧ items.length ≤ first ∧
      counted.stream.advances = items.length ∧
      counted.stream.queries = items.length + if items.length = first then 0 else 1) ∧
    (∀ count, Grammar.ofTaken (flow.take first world).1 = .error (.stalled count) ↔
      count < first ∧ ∃ items later after, items.length = count ∧ flow.machine.Shows flow.state world items later after ∧
        (flow.machine.query later after).1 = .ok .pending) ∧
    ((∃ count, Grammar.ofTaken (flow.take first world).1 = .error (.stalled count)) ∨
      Grammar.ofTaken (flow.take first world).1 = .ok ((s.drop place).take first)) ∧
    ∀ xs, Grammar.ofTaken (flow.take first world).1 = .ok xs → ∀ ys,
      Grammar.ofTaken ((flow.take first world).2.1.take second (flow.take first world).2.2).1 = .ok ys ↔
        Grammar.ofTaken (flow.take (first + second) world).1 = .ok (xs ++ ys) := by
  obtain ⟨items, last, final, shows_, -, stops⟩ := steady.reads first there sound
  obtain ⟨short, counted, after, counts, taken, within, advances, queries⟩ := stops.counted shows_
  refine ⟨⟨items, short, counted, after, counts, taken, within, advances, queries⟩, ?_, ?_, ?_⟩
  · exact stalls_iff steady there sound first
  · exact stalls_or_takes steady there sound first
  · exact fun xs taken ys => goes_on steady there sound taken second ys

section Delaying

theorem merged_again {σ τ α : Type} {first : Machine ω σ α} {second : Machine ω τ α} {le : α → α → Bool}
    {state later : Merged σ τ α} {world after : ω} {status : Status α}
    (asked : (Merged.machine first second le).query state world = (.ok status, later, after))
    (stable : status.isStable = true) : ((Merged.machine first second le).query later after).1 = .ok status := by
  obtain ⟨left, right, verdict, rfl, rfl⟩ := Merged.query_keeps asked (Status.isStable_iff.mp stable)
  rfl

theorem merged_steady {σ τ α : Type} {first : Machine ω σ α} {second : Machine ω τ α} {le : α → α → Bool} {l m : List α}
    {stands : Standing σ ω} {others : Standing τ ω} (plays : Plays setting first (.ofList l) stands)
    (follows : Plays setting second (.ofList m) others)
    (unfailing : ∀ {fault before after}, ¬ setting.hinders (.fault fault) before after) :
    Steady setting (Merged.machine first second le) (.ofAnswers (Stream'.Seq.ofList (l.merge m le)).get?)
      (Merged.Stands le (.ofList l) (.ofList m) stands others) where
  toPlays := (Merged.plays plays follows).along fun ⟨_, _, reached, _⟩ => by
    rw [merged_lists reached, ← Grid.course_ofList]
    rfl
  unfailing := unfailing
  again _ _ asked stable := merged_again asked stable

def lightAndHeavy : Flow Unit Derivation :=
  merged Derivation.le (.single ⟨1, ["a"]⟩)
    ⟨Delayed (Single Derivation), Delayed.machine Single.machine, ⟨1, 0, .holding ⟨2, ["b"]⟩⟩⟩

theorem two_before_a_delay : Grammar.ofTaken (lightAndHeavy.take 1 ()).1 = .ok [⟨1, ["a"]⟩] ∧
    Grammar.ofTaken ((lightAndHeavy.take 1 ()).2.1.take 1 ()).1 = .ok [⟨2, ["b"]⟩] ∧
    Grammar.ofTaken (lightAndHeavy.take 2 ()).1 = .ok [⟨1, ["a"]⟩, ⟨2, ["b"]⟩] ∧
    Grammar.ofTaken (lightAndHeavy.take 3 ()).1 = .error (.stalled 2) ∧
    ∀ ys, Grammar.ofTaken ((lightAndHeavy.take 1 ()).2.1.take 2 ()).1 ≠ .ok ys := by
  have steady : Steady (Setting.idle Unit) lightAndHeavy.machine _ _ :=
    merged_steady (Single.plays ⟨1, ["a"]⟩) (Delayed.plays (Single.plays ⟨2, ["b"]⟩) fun _ => rfl) nofun
  have starts : Merged.Stands Derivation.le (.ofList [⟨1, ["a"]⟩]) (.ofList [⟨2, ["b"]⟩]) (Single.Stands ⟨1, ["a"]⟩)
      (Delayed.Stands (Single.Stands ⟨2, ["b"]⟩)) 0 false lightAndHeavy.state () :=
    ⟨0, 0, rfl, rfl, ⟨false, .inl ⟨rfl, rfl⟩⟩, false, nofun, .inl ⟨rfl, rfl⟩⟩
  have light : Grammar.ofTaken (lightAndHeavy.take 1 ()).1 = .ok [⟨1, ["a"]⟩] := rfl
  have heavy : Grammar.ofTaken ((lightAndHeavy.take 1 ()).2.1.take 1 ()).1 = .ok [⟨2, ["b"]⟩] := rfl
  have stalled : Grammar.ofTaken (lightAndHeavy.take 3 ()).1 = .error (.stalled 2) := rfl
  obtain ⟨-, -, -, once⟩ := taking_in_two_goes steady starts trivial 1 1
  obtain ⟨-, -, -, longer⟩ := taking_in_two_goes steady starts trivial 1 2
  refine ⟨light, heavy, (once _ light _).mp heavy, stalled, fun ys taken => ?_⟩
  have together := (longer _ light ys).mp taken
  rw [stalled] at together
  cases together

end Delaying
end Flow
end LightestFirst
