import Mathlib.Data.Seq.Basic
import LightestFirst.Proofs.Products.Runs
-- How much a product has computed after any run of calls: one left element beyond the rows begun, the right
-- stream once and one element beyond the farthest row, and a join for each pair given and each head in sight.
namespace LightestFirst
open Stream' (Seq)
open Iterated (inTurn)
variable {ω σ τ α : Type}

namespace Paired

section Fronts
variable {s : Seq α} {limit : Nat}

theorem take_eq {l : List α} (elements : ∀ i < l.length, l[i]? = s.get? i)
    (stop : l.length = limit ∨ l.length < limit ∧ s.get? l.length = none) : l = s.take limit := by
  apply List.ext_getElem?
  intro i
  rw [Seq.getElem?_take]
  rcases Nat.lt_or_ge i l.length with inside | beyond
  · rw [elements i inside, if_pos (by omega)]
  · rw [List.getElem?_eq_none beyond]
    rcases stop with full | ⟨_, ended⟩
    · rw [if_neg (by omega)]
    · rw [s.le_stable beyond ended, ite_self]

theorem length_take {n : Nat} (inside : ∀ i < n, (s.get? i).isSome = true)
    (stop : n = limit ∨ n < limit ∧ s.get? n = none) : (s.take limit).length = n := by
  refine Nat.le_antisymm (Nat.le_of_not_lt fun longer => ?_) (Nat.le_of_not_lt fun shorter => ?_)
  · have there := Seq.getElem?_take n limit s
    rw [List.getElem?_eq_getElem longer] at there
    rcases stop with rfl | ⟨_, ended⟩
    · rw [if_neg (Nat.lt_irrefl _)] at there
      cases there
    · rw [ended, ite_self] at there
      cases there
  · have there := Seq.getElem?_take (s.take limit).length limit s
    rw [List.getElem?_eq_none (Nat.le_refl _), if_pos (by omega)] at there
    have known := inside _ shorter
    rw [← there] at known
    cases known

end Fronts

section Sights
variable {le : α → α → Bool} {joined : α → α → α} {xs ys : Seq α} {rows : List Nat} {emitted : List (Nat × Nat)}

theorem lanes_ordinals {shared : Buffered (Counted τ) α × List (α × α) × ω} {row : Nat} {columns : List Nat}
    {lanes : List (Lane α)} {column : Nat → Nat}
    (stand : Lanes joined (Grid.course xs) (Grid.course ys) true shared row columns lanes)
    (counts : ∀ k count, columns[k]? = some count → count = column (row + k))
    (ready : ∀ lane ∈ lanes, computed lane = true) : lanes.map (·.ordinal) =
      (List.range' row columns.length).filter fun row => (Grid.value joined xs ys (row, column row)).isSome := by
  induction columns generalizing row lanes with
  | nil =>
    cases stand
    rfl
  | cons count columns ih =>
    obtain rfl : count = column row := counts 0 count rfl
    have later : ∀ k count, columns[k]? = some count → count = column (row + 1 + k) := by
      intro k count there
      rw [Nat.add_assoc, Nat.add_comm 1]
      exact counts (k + 1) count there
    rw [List.length_cons, List.range'_succ]
    cases stand with
    | dropped ended rest =>
      rw [Grid.entry_eq, Iterated.answer_eq_ended] at ended
      rw [List.filter_cons_of_neg (by simp [ended]), ih rest later ready]
    | @lane _ _ _ lane lanes shown answered here rest =>
      obtain rfl := answered rfl
      have sight := here.sighted (ready lane List.mem_cons_self)
      have same := here.1
      obtain ⟨y, found, _⟩ := sight.right
      have there : Grid.value joined xs ys (row, column row) = some (joined lane.element y) :=
        Grid.value_some.mpr ⟨lane.element, y, same ▸ sight.left, found, rfl⟩
      rw [List.filter_cons, if_pos (by rw [there]; rfl), List.map_cons, same,
        ih rest later fun other among => ready other (List.mem_cons_of_mem _ among)]

theorem value_of_decided {value : α} {row : Nat}
    (counts : ∀ row, rows[row]?.getD 0 = givenFrom emitted row)
    (decided : Course.decision le joined (Grid.course xs) (Grid.course ys) rows = some (.ready value row)) :
    Grid.value joined xs ys (row, givenFrom emitted row) = some value := by
  have picked : Grid.Picked joined xs ys rows _ := Grid.picked le rows
  rw [decided] at picked
  cases picked with
  | head _ there => rwa [Grid.head, counts] at there

theorem joinedAt_begun {place : Nat}
    (reached : Course.joinedAt le joined (Grid.course xs) (Grid.course ys) place = some rows) :
    ∀ count ∈ rows, 0 < count :=
  Course.joinedAt_invariant (fun _ none => nomatch none) (fun begun _ => Grid.given_begun begun _) reached

theorem rowsBegun_eq (begun : ∀ count ∈ rows, 0 < count) (counts : ∀ row, rows[row]?.getD 0 = givenFrom emitted row) :
    rowsBegun emitted = Finset.range rows.length := by
  ext row
  rw [mem_rowsBegun, ← counts, Finset.mem_range]
  rcases Nat.lt_or_ge row rows.length with inside | beyond
  · rw [List.getElem?_eq_getElem inside]
    exact iff_of_true (begun _ (List.getElem_mem inside)) inside
  · rw [List.getElem?_eq_none beyond]
    exact iff_of_false (Nat.lt_irrefl 0) (Nat.not_lt_of_ge beyond)

theorem Frontier.pulled {row appended : Nat} {leftEnded needsLeft : Bool}
    (frontier : Frontier (Grid.course xs) row leftEnded needsLeft appended false) :
    appended = row + 1 ∨ appended = row ∧ xs.get? row = none := by
  cases frontier with
  | fetched => exact .inl rfl
  | finished ended => exact .inr ⟨rfl, Iterated.answer_eq_ended.mp ended⟩

theorem length_take_begun {begun appended : Nat} (same : rowsBegun emitted = Finset.range begun)
    (pulled : ∀ row < appended, (xs.get? row).isSome = true)
    (last : appended = begun + 1 ∨ appended = begun ∧ xs.get? begun = none) :
    (xs.take (1 + (rowsBegun emitted).card)).length = appended := by
  rw [same, Finset.card_range]
  refine length_take pulled ?_
  rcases last with fetched | ⟨rfl, nothing⟩
  · exact .inl (by omega)
  · exact .inr ⟨by omega, nothing⟩

theorem farthest_pulled {begun appended : Nat} (same : rowsBegun emitted = Finset.range begun)
    (last : appended = begun + 1 ∨ appended = begun ∧ xs.get? begun = none) (some_left : (xs.get? 0).isSome = true) :
    ∃ row < appended, givenFrom emitted row = farthest emitted := by
  obtain ⟨row, far, which⟩ := farthest_row emitted
  rw [same, Finset.mem_range] at which
  refine ⟨row, ?_, far⟩
  rcases last with fetched | ⟨rfl, nothing⟩
  · omega
  · have positive : appended ≠ 0 := by
      rintro rfl
      rw [nothing] at some_left
      cases some_left
    omega

def remaining (ys : Seq α) (emitted : List (Nat × Nat)) (pulled : Nat) : List Nat :=
  (List.range pulled).filter fun row => (ys.get? (givenFrom emitted row)).isSome

theorem remaining_eq (joined : α → α → α) {row appended : Nat} (pulled : ∀ row < appended, (xs.get? row).isSome = true)
    (last : appended = row + 1 ∨ appended = row ∧ xs.get? row = none) :
    ((List.range (row + 1)).filter fun row => (Grid.value joined xs ys (row, givenFrom emitted row)).isSome) =
      remaining ys emitted appended := by
  have same : ∀ row ∈ List.range appended, (Grid.value joined xs ys (row, givenFrom emitted row)).isSome =
      (ys.get? (givenFrom emitted row)).isSome := by
    intro row among
    obtain ⟨x, found⟩ := Option.isSome_iff_exists.mp (pulled row (List.mem_range.mp among))
    rw [Grid.value, found, Option.bind_some, Option.isSome_map]
  rw [remaining, ← List.filter_congr same]
  rcases last with rfl | ⟨rfl, nothing⟩
  · rfl
  · rw [List.range_succ, List.filter_append, List.filter_cons_of_neg (by simp [Grid.value, nothing]), List.filter_nil,
      List.append_nil]

end Sights

section Demand
variable {setting : Setting ω} {first : Machine ω σ α} {second : Machine ω τ α} {le : α → α → Bool}
  {join : α → α → ω → Attempt α × ω} {joined : α → α → α} {xs ys : Seq α} {firstStands : Standing σ ω}
  {secondStands : Standing τ ω} {emitted : List (Nat × Nat)} {state later : Paired (Counted σ) (Counted τ) α}
  {world : List (α × α) × ω}

-- What a product has computed when it has an answer, told from how many elements of each row it has given.
structure OnDemand (xs ys : Seq α) (emitted : List (Nat × Nat)) (state : Paired (Counted σ) (Counted τ) α)
    (log : List (α × α)) : Prop where
  pulled : state.left.advances = (xs.take (1 + (rowsBegun emitted).card)).length
  peeked : state.left.queries = state.left.advances + state.leftEnded.toNat
  untouched : xs.get? 0 = none → state.right.source.queries = 0
  produced : (xs.get? 0).isSome = true → state.right.buffer.toList = ys.take (1 + farthest emitted)
  once : state.right.source.queries = state.right.buffer.size + state.right.ended.toNat
  passed : state.right.buffer.size = state.right.source.advances + state.right.headBuffered.toNat
  lanes : state.lanes.map (·.ordinal) = remaining ys emitted state.left.advances
  distinct : (emitted ++ (remaining ys emitted state.left.advances).map fun row => (row, givenFrom emitted row)).Nodup
  joins : (log.map some).Perm ((emitted ++ (remaining ys emitted state.left.advances).map fun row =>
    (row, givenFrom emitted row)).map (operands xs ys))

theorem Books.buffered (books : Books le joined xs ys emitted state world)
    (elements : ∀ i < state.right.buffer.toList.length, state.right.buffer.toList[i]? = ys.get? i) {row : Nat}
    (far : givenFrom emitted row = farthest emitted)
    (sight : (ys.get? (givenFrom emitted row)).isSome = true → givenFrom emitted row < state.right.buffer.size) :
    state.right.buffer.toList = ys.take (1 + farthest emitted) := by
  have within := books.account.within
  have behind := books.behind row
  rw [far] at sight behind
  refine take_eq elements ?_
  rw [Array.length_toList] at elements ⊢
  cases found : ys.get? (farthest emitted) with
  | some y =>
    have inside := sight (by rw [found]; rfl)
    exact .inl (by dsimp only at within; omega)
  | none =>
    have short : state.right.buffer.size ≤ farthest emitted := by
      by_contra longer
      have there := elements _ (Nat.lt_of_not_le longer)
      rw [found, List.getElem?_eq_none_iff, Array.length_toList] at there
      exact longer there
    have same : state.right.buffer.size = farthest emitted := Nat.le_antisymm short behind
    rw [same]
    exact .inr ⟨by omega, found⟩

theorem Books.sights_distinct (books : Books le joined xs ys emitted state world) (pulled : Nat) :
    (emitted ++ (remaining ys emitted pulled).map fun row => (row, givenFrom emitted row)).Nodup := by
  refine books.distinct.append ((List.nodup_range.filter _).map fun _ _ same => congrArg Prod.fst same) ?_
  intro p before sighted
  obtain ⟨row, _, rfl⟩ := List.mem_map.mp sighted
  exact Nat.lt_irrefl _ ((books.listed _).mp before)

theorem buffer_passed {course : Course α} {stands : Standing τ ω} {cell : Buffered (Counted τ) α} {world : ω}
    (held : cell.Stands course (Counted.Stands stands) world) :
    cell.buffer.size = cell.source.advances + cell.headBuffered.toNat := by
  have sourced := held.source
  generalize cell.headBuffered = flag at sourced ⊢
  cases flag with
  | true =>
    obtain ⟨place, size, _, advanced⟩ := sourced
    rw [size, advanced]
    rfl
  | false =>
    obtain ⟨_, _, advanced⟩ := sourced
    exact advanced.symm

theorem Books.untouched (books : Books le joined xs ys emitted state world) (nothing : xs.get? 0 = none) :
    state.right.source.queries = 0 := by
  refine books.idle (Nat.eq_zero_of_not_pos fun some_pulled => ?_)
  have there := books.pulled 0 some_pulled
  rw [nothing] at there
  cases there

theorem Books.onDemand {choice : Choice α} (books : Books le joined xs ys emitted state world)
    (placed : Placed le joined xs ys firstStands secondStands emitted.length true state world)
    (chosen : state.choice = some choice) : OnDemand xs ys emitted state world.1 := by
  obtain ⟨rows, due, reached, between, held⟩ := placed
  rw [chosen] at held
  obtain ⟨rfl, same⟩ := held
  have counts := books.counts rows reached
  have begun := rowsBegun_eq (joinedAt_begun reached) counts
  have last := between.frontier.pulled
  obtain ⟨shown, _, advanced⟩ := between.left
  have ready := books.settled (by rw [chosen]; rfl)
  have stand : Lanes joined (Grid.course xs) (Grid.course ys) true (state.right, world) 0 (inLine rows false)
      state.lanes := by
    have stand := between.lanes
    rwa [chosen] at stand
  have sight := fun lane among => sighted stand counts among (ready lane among)
  have lanes : state.lanes.map (·.ordinal) = remaining ys emitted state.left.advances := by
    have ordinals := lanes_ordinals stand
      (fun k count there => by rw [Nat.zero_add]; exact lane_column counts there) ready
    rw [ordinals, advanced, ← remaining_eq joined books.pulled last, List.range_eq_range']
    simp [inLine]
  have elements : ∀ i < state.right.buffer.toList.length, state.right.buffer.toList[i]? = ys.get? i := by
    intro i within
    have found := List.getElem?_eq_getElem within
    rw [found, Iterated.answer_eq_ready.mp (between.right.elements (by rw [← Array.getElem?_toList, found]))]
  have fronts : heads state.lanes =
      (remaining ys emitted state.left.advances).map fun row => (row, givenFrom emitted row) := by
    rw [heads, List.filter_eq_self.mpr ready, ← lanes, List.map_map]
    exact List.map_congr_left fun lane among => (sight lane among).front_eq
  refine ⟨?_, books.peeked, books.untouched, fun some_left => ?_, books.account.once, buffer_passed between.right, lanes,
    books.sights_distinct _, ?_⟩
  · rw [advanced, length_take_begun begun books.pulled last]
  · obtain ⟨row, inside, far⟩ := farthest_pulled begun last some_left
    refine books.buffered elements far fun there => ?_
    have waits : row ∈ state.lanes.map (·.ordinal) := by
      rw [lanes, advanced]
      exact List.mem_filter.mpr ⟨List.mem_range.mpr inside, there⟩
    obtain ⟨lane, here, rfl⟩ := List.mem_map.mp waits
    exact (sight lane here).inside
  · have calls := books.account.calls
    rw [fronts] at calls
    exact calls.trans (List.perm_append_comm.map _)

-- Whatever has been called so far, a query gives an answer, and then just so much has been computed. The element
-- it shows is the join of the next pair of its row, and advancing goes over it.
theorem products_compute_on_demand (prompt : setting.Prompt) (computes : ∀ x y, setting.Computes (join x y) (joined x y))
    (leftPlays : Plays setting first (Grid.course xs) firstStands)
    (rightPlays : Plays setting second (Grid.course ys) secondStands) {left : σ} {right : τ} {outside : ω}
    (leftStarts : firstStands 0 false left outside) (rightStarts : secondStands 0 false right outside)
    (sound : setting.sound outside) (run : Run setting first second le join left right outside emitted state world) :
    (∀ p, p ∈ emitted ↔ p.2 < givenFrom emitted p.1) ∧
    ∃ (status : Status α) (later : Paired (Counted σ) (Counted τ) α) (after : List (α × α) × ω),
      (watched first second le join).query state world = (.ok status, later, after) ∧ status.isStable = true ∧
      OnDemand xs ys emitted later after.1 ∧
      ∀ value, status = .ready value → ∃ place lane x y, later.choice = some (.ready value place) ∧
        later.lanes[place]? = some lane ∧ front lane = (lane.ordinal, givenFrom emitted lane.ordinal) ∧
        operands xs ys (front lane) = some (x, y) ∧ joined x y = value ∧
        ((watched first second le join).advance later after).1 = .ok () := by
  obtain ⟨fine, ⟨seen, there⟩, books⟩ := run.books leftPlays rightPlays computes prompt leftStarts rightStarts sound
  refine ⟨books.listed, ?_⟩
  obtain ⟨choice, later, after, asked, chosen, fine, placed, books⟩ :=
    books.asked leftPlays rightPlays computes prompt fine there
  refine ⟨choice.status, later, after, asked, by cases choice <;> rfl, books.onDemand placed chosen, ?_⟩
  intro value shown
  cases choice with
  | ended => cases shown
  | ready held place =>
    obtain rfl : held = value := by cases shown; rfl
    obtain ⟨rows, lane, reached, decided, found, _, sight⟩ := books.showing placed chosen
    obtain ⟨x, y, here, there, rfl⟩ := Grid.value_some.mp (value_of_decided (books.counts rows reached) decided)
    obtain ⟨_, _, passed, _⟩ := books.taken leftPlays rightPlays computes fine placed chosen found
    refine ⟨place, lane, x, y, chosen, found, sight.front_eq, ?_, rfl, congrArg Prod.fst passed⟩
    rw [sight.front_eq, operands, here, there]
    rfl

theorem second_sum_on_demand : ∃ state world later after,
    Run (Setting.free Unit) (Iterated.machine (inTurn ↑(Stream'.nats))) (Iterated.machine (inTurn (Seq.ofList [0, 10])))
      (· ≤ · : Nat → Nat → Bool) (plainly (· + ·)) (.start 0) (.start 0) () [(0, 0)] state world ∧
    (watched (Iterated.machine (inTurn ↑(Stream'.nats))) (Iterated.machine (inTurn (Seq.ofList [0, 10])))
      (· ≤ · : Nat → Nat → Bool) (plainly (· + ·))).query state world = (.ok (.ready 1), later, after) ∧
    later.left.advances = 2 ∧ later.right.buffer.toList = [0, 10] ∧ later.lanes.map (·.ordinal) = [0, 1] ∧
    (after.1.map some).Perm [some (0, 0), some (0, 10), some (1, 0)] := by
  have begun : Run (Setting.free Unit) (Iterated.machine (inTurn ↑(Stream'.nats)))
      (Iterated.machine (inTurn (Seq.ofList [0, 10]))) (· ≤ · : Nat → Nat → Bool) (plainly (· + ·)) (.start 0) (.start 0)
      () [] _ _ := .start
  obtain ⟨state, world, run, shown⟩ : ∃ state world,
      Run (Setting.free Unit) (Iterated.machine (inTurn ↑(Stream'.nats)))
        (Iterated.machine (inTurn (Seq.ofList [0, 10]))) (· ≤ · : Nat → Nat → Bool) (plainly (· + ·)) (.start 0) (.start 0)
        () [(0, 0)] state world ∧
      ((watched (Iterated.machine (inTurn ↑(Stream'.nats))) (Iterated.machine (inTurn (Seq.ofList [0, 10])))
        (· ≤ · : Nat → Nat → Bool) (plainly (· + ·))).query state world).1 = .ok (.ready 1) :=
    ⟨_, _, (begun.asked rfl).taken rfl rfl rfl, rfl⟩
  have pure : ∀ x y : Nat, (Setting.free Unit).Computes (plainly (· + ·) x y) (x + y) :=
    fun x y => Setting.computes_pure _ (x + y)
  obtain ⟨_, status, later, after, asked, _, demand, _⟩ := products_compute_on_demand Setting.free_prompt pure
    (Iterated.inTurn_plays _) (Iterated.inTurn_plays _) (Iterated.inTurn_starts _ ()) (Iterated.inTurn_starts _ ())
    trivial run
  obtain rfl : status = .ready 1 := Except.ok.inj ((congrArg Prod.fst asked).symm.trans shown)
  have pulled : later.left.advances = 2 := demand.pulled
  have rows : remaining (Seq.ofList [0, 10]) [(0, 0)] 2 = [0, 1] := rfl
  have lanes := demand.lanes
  have joins := demand.joins
  rw [pulled, rows] at lanes joins
  exact ⟨state, world, later, after, run, asked, pulled, demand.produced rfl, lanes, joins⟩

end Demand

end Paired
end LightestFirst
