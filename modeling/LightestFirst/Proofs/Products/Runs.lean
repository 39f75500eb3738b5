import Mathlib.Data.Finset.Lattice.Fold
import Mathlib.Order.Lattice.Nat
import LightestFirst.Proofs.Playing.Definite
import LightestFirst.Proofs.Products.Accounts
-- The runs of a product that is watched: it is asked and advanced, and the calls of its parts are counted. What
-- the calls have left behind is kept by each of them.
namespace LightestFirst
open Stream' (Seq)
variable {ω σ τ α : Type}

namespace Paired

-- How many elements of a row have been given, which rows have given any, and how many the farthest one has.
def givenFrom (emitted : List (Nat × Nat)) (row : Nat) : Nat := (emitted.map Prod.fst).count row

def rowsBegun (emitted : List (Nat × Nat)) : Finset Nat := (emitted.map Prod.fst).toFinset

def farthest (emitted : List (Nat × Nat)) : Nat := (rowsBegun emitted).sup (givenFrom emitted)

section Counts
variable {emitted : List (Nat × Nat)} {row : Nat}

theorem givenFrom_append (emitted : List (Nat × Nat)) (p : Nat × Nat) (row : Nat) :
    givenFrom (emitted ++ [p]) row = givenFrom emitted row + if row = p.1 then 1 else 0 := by
  rw [givenFrom, List.map_append, List.count_append, List.map_singleton, List.count_singleton, givenFrom]
  simp only [beq_iff_eq, eq_comm (a := p.1)]

theorem mem_rowsBegun : row ∈ rowsBegun emitted ↔ 0 < givenFrom emitted row := by
  rw [rowsBegun, List.mem_toFinset, givenFrom, List.count_pos_iff]

theorem givenFrom_le (emitted : List (Nat × Nat)) (row : Nat) : givenFrom emitted row ≤ farthest emitted := by
  rcases Nat.eq_zero_or_pos (givenFrom emitted row) with none_given | some_given
  · rw [none_given]
    exact Nat.zero_le _
  · exact Finset.le_sup (f := givenFrom emitted) (mem_rowsBegun.mpr some_given)

theorem farthest_append (emitted : List (Nat × Nat)) (p : Nat × Nat) : farthest emitted ≤ farthest (emitted ++ [p]) := by
  refine Finset.sup_le fun row _ => Nat.le_trans ?_ (givenFrom_le (emitted ++ [p]) row)
  rw [givenFrom_append]
  exact Nat.le_add_right _ _

theorem farthest_row (emitted : List (Nat × Nat)) :
    ∃ row, givenFrom emitted row = farthest emitted ∧ (row = 0 ∨ row ∈ rowsBegun emitted) := by
  rcases (rowsBegun emitted).eq_empty_or_nonempty with nothing | some_begun
  · refine ⟨0, ?_, .inl rfl⟩
    have fresh : givenFrom emitted 0 = 0 := by
      have out : 0 ∉ rowsBegun emitted := by simp [nothing]
      rw [mem_rowsBegun] at out
      omega
    rw [fresh, farthest, nothing, Finset.sup_empty]
    rfl
  · obtain ⟨row, among, same⟩ := (rowsBegun emitted).exists_mem_eq_sup some_begun (givenFrom emitted)
    exact ⟨row, same.symm, .inr among⟩

end Counts

section Runs
variable (setting : Setting ω) (first : Machine ω σ α) (second : Machine ω τ α) (le : α → α → Bool)
  (join : α → α → ω → Attempt α × ω) (left : σ) (right : τ) (outside : ω)

def watched : Machine (List (α × α) × ω) (Paired (Counted σ) (Counted τ) α) α :=
  machine (Counted.machine first.aside) (Counted.machine second.aside) le (noting join)

-- The product is asked and advanced in whatever order, and something else may move the world. What is
-- advanced over is told by its row and its column there.
inductive Run : List (Nat × Nat) → Paired (Counted σ) (Counted τ) α → List (α × α) × ω → Prop where
  | start : Run [] (of (.start left) (.start right)) ([], outside)
  | asked {emitted : List (Nat × Nat)} {state later : Paired (Counted σ) (Counted τ) α} {world after : List (α × α) × ω}
      {result : Attempt (Status α)} (before : Run emitted state world)
      (call : (watched first second le join).query state world = (result, later, after)) : Run emitted later after
  | taken {emitted : List (Nat × Nat)} {state later : Paired (Counted σ) (Counted τ) α} {world after : List (α × α) × ω}
      {result : Attempt Unit} {value : α} {place : Nat} {lane : Lane α} (before : Run emitted state world)
      (chosen : state.choice = some (.ready value place)) (found : state.lanes[place]? = some lane)
      (call : (watched first second le join).advance state world = (result, later, after)) :
      Run (emitted ++ [front lane]) later after
  | elsewhere {emitted : List (Nat × Nat)} {state : Paired (Counted σ) (Counted τ) α} {log : List (α × α)}
      {world after : ω} (before : Run emitted state (log, world)) (moved : setting.moves world after)
      (sound : setting.sound after) : Run emitted state (log, after)

end Runs

structure Books (le : α → α → Bool) (joined : α → α → α) (xs ys : Seq α) (emitted : List (Nat × Nat))
    (state : Paired (Counted σ) (Counted τ) α) (world : List (α × α) × ω) : Prop where
  counts : ∀ rows, Course.joinedAt le joined (Grid.course xs) (Grid.course ys) emitted.length = some rows →
    ∀ row, rows[row]?.getD 0 = givenFrom emitted row
  listed : ∀ p, p ∈ emitted ↔ p.2 < givenFrom emitted p.1
  distinct : emitted.Nodup
  pulled : ∀ row < state.appended, (xs.get? row).isSome = true
  peeked : state.left.queries = state.left.advances + state.leftEnded.toNat
  account : Account xs ys (1 + farthest emitted) (heads state.lanes ++ emitted) (state.right, world)
  behind : ∀ row, givenFrom emitted row ≤ state.right.buffer.size
  idle : state.appended = 0 → state.right.source.queries = 0
  settled : state.choice.isSome = true → ∀ lane ∈ state.lanes, computed lane = true

section Steps
variable {setting : Setting ω} {first : Machine ω σ α} {second : Machine ω τ α} {le : α → α → Bool}
  {join : α → α → ω → Attempt α × ω} {joined : α → α → α} {xs ys : Seq α} {firstStands : Standing σ ω}
  {secondStands : Standing τ ω} {emitted : List (Nat × Nat)} {state : Paired (Counted σ) (Counted τ) α}
  {world : List (α × α) × ω}

abbrev Placed (le : α → α → Bool) (joined : α → α → α) (xs ys : Seq α) (firstStands : Standing σ ω)
    (secondStands : Standing τ ω) : Standing (Paired (Counted σ) (Counted τ) α) (List (α × α) × ω) :=
  Stands le joined (Grid.course xs) (Grid.course ys) (Counted.Stands firstStands.aside) (Counted.Stands secondStands.aside)

theorem Books.start (left : σ) (right : τ) (outside : ω) :
    Books le joined xs ys [] (of (.start left) (.start right) : Paired (Counted σ) (Counted τ) α) ([], outside) where
  counts := by
    rintro _ ⟨⟩ row
    rfl
  listed p := iff_of_false List.not_mem_nil (Nat.not_lt_zero _)
  distinct := .nil
  pulled := nofun
  peeked := rfl
  account := ⟨rfl, Nat.zero_le _, .nil⟩
  behind _ := Nat.zero_le _
  idle _ := rfl
  settled := nofun

theorem Books.still {after : List (α × α) × ω} (books : Books le joined xs ys emitted state world)
    (same : after.1 = world.1) : Books le joined xs ys emitted state after :=
  { books with account := ⟨books.account.once, books.account.within, by rw [same]; exact books.account.calls⟩ }

theorem Books.opened {left later : Counted σ} {cell : Buffered (Counted τ) α} {lanes : List (Lane α)} {appended : Nat}
    {x : α} (books : Books le joined xs ys emitted ⟨left, false, cell, lanes, appended, true, none⟩ world)
    (there : (xs.get? appended).isSome = true) (peeked : later.queries = later.advances) :
    Books le joined xs ys emitted
      ⟨later, false, cell, lanes ++ [openLane appended x], appended + 1, false, none⟩ world where
  counts := books.counts
  listed := books.listed
  distinct := books.distinct
  pulled := by
    intro row inside
    rcases Nat.lt_succ_iff_lt_or_eq.mp inside with earlier | rfl
    · exact books.pulled row earlier
    · exact there
  peeked := peeked
  account := by
    have same : heads (lanes ++ [openLane appended x]) = heads lanes := by
      rw [heads, List.filter_append, List.filter_cons_of_neg (by simp [computed, openLane, Mapped.start]),
        List.filter_nil, List.append_nil, heads]
    rw [same]
    exact books.account
  behind := books.behind
  idle := nofun
  settled := nofun

theorem Books.grown (prompt : setting.Prompt) (left : Plays setting first (Grid.course xs) firstStands)
    (right : Plays setting second (Grid.course ys) secondStands) {rows : List Nat} {due : Bool}
    (undecided : state.choice = none) (sound : setting.sound world.2)
    (between : Between joined (Grid.course xs) (Grid.course ys) (Counted.Stands firstStands.aside)
      (Counted.Stands secondStands.aside) rows due state world)
    (books : Books le joined xs ys emitted state world) :
    ∃ later after, grow (Counted.machine first.aside) state world = (.ok true, later, after) ∧ later.choice = none ∧
      setting.sound after.2 ∧ Between joined (Grid.course xs) (Grid.course ys) (Counted.Stands firstStands.aside)
        (Counted.Stands secondStands.aside) rows false later after ∧ Books le joined xs ys emitted later after := by
  have grown := grow_grown (Counted.plays left.aside) (Counted.plays right.aside) undecided between sound
  obtain ⟨later, after, outcome, books⟩ : ∃ later after,
      grow (Counted.machine first.aside) state world = (.ok true, later, after) ∧
        Books le joined xs ys emitted later after := by
    obtain ⟨l, leftEnded, cell, lanes, appended, needsLeft, choice⟩ := state
    obtain rfl : choice = none := undecided
    obtain ⟨⟨shown, leftThere, advanced⟩, _, frontier, _⟩ := between
    have waitless : (setting.aside (List (α × α))).Prompt := fun cause _ _ => prompt cause _ _
    cases frontier with
    | fetched => exact ⟨_, _, rfl, books⟩
    | finished => exact ⟨_, _, rfl, books⟩
    | due =>
      obtain ⟨stream, middle, asked, fine, _, there⟩ := (left.aside.query leftThere sound).exactly waitless
      have still : middle.1 = world.1 := (congrArg (·.2.2.1) asked).symm
      have peeked : l.queries = l.advances := books.peeked
      simp only [grow, Counted.machine, Machine.within, asked]
      generalize answered : Grid.course xs rows.length = status at there
      cases status with
      | pending => exact absurd answered Iterated.answer_ne_pending
      | ended => exact ⟨_, _, rfl, { books.still still with peeked := congrArg (· + 1) peeked }⟩
      | ready x =>
        have passed := left.aside.advance there (by rw [answered]; rfl) fine
        obtain ⟨⟨result, further, after⟩, went⟩ := Exists.intro _ (rfl : first.aside.advance stream middle = _)
        have silent : after.1 = middle.1 := (congrArg (·.2.2.1) went).symm
        rw [went] at passed
        cases passed with
        | passed =>
          simp only [went]
          have found : (xs.get? rows.length).isSome = true := by
            rw [Iterated.answer_eq_ready.mp answered]
            rfl
          exact ⟨_, _, rfl, (books.still (silent.trans still)).opened found (congrArg (· + 1) peeked)⟩
  rw [outcome] at grown
  cases grown with
  | ready undecided between sound => exact ⟨later, after, outcome, undecided, sound, between, books⟩

theorem Between.ordinal_lt {state : Paired σ τ α} {world : ω} {rows : List Nat} {due : Bool} {first : Standing σ ω}
    {second : Standing τ ω} {xs ys : Course α} (between : Between joined xs ys first second rows due state world)
    {lane : Lane α} (among : lane ∈ state.lanes) : lane.ordinal < state.appended := by
  obtain ⟨place, found⟩ := List.mem_iff_getElem?.mp among
  obtain ⟨k, column, shown, ordinal, inLine, _, here⟩ := between.lanes.getElem? found
  rw [Nat.zero_add] at ordinal here
  have inside := (List.getElem?_eq_some_iff.mp inLine).1
  have frontier := between.frontier
  generalize state.leftEnded = leftEnded, state.needsLeft = needsLeft, state.appended = appended at frontier
  cases frontier with
  | due => rwa [ordinal]
  | fetched => rwa [Paired.inLine, if_neg Bool.false_ne_true, List.length_append, ← ordinal] at inside
  | finished ended =>
    rw [Paired.inLine, if_neg Bool.false_ne_true, List.length_append, List.length_singleton] at inside
    rcases Nat.lt_succ_iff_lt_or_eq.mp inside with earlier | rfl
    · rwa [ordinal]
    · have both := ended.symm.trans here.2.1
      cases both

theorem lane_column {rows : List Nat} (counts : ∀ row, rows[row]?.getD 0 = givenFrom emitted row) {due : Bool}
    {row column : Nat} (inside : (inLine rows due)[row]? = some column) : column = givenFrom emitted row := by
  rw [← counts]
  cases due with
  | true =>
    have there : rows[row]? = some column := inside
    rw [there]
    rfl
  | false =>
    rcases Course.getElem?_concat inside with there | ⟨rfl, rfl⟩
    · rw [there]
      rfl
    · rw [List.getElem?_eq_none (Nat.le_refl _)]
      rfl

-- A lane that has its head joined and has shown it.
structure Sighted (joined : α → α → α) (xs ys : Seq α) (column size : Nat) (lane : Lane α) : Prop where
  left : xs.get? lane.ordinal = some lane.element
  right : ∃ y, ys.get? column = some y ∧ lane.joins.cached = some (.ready (joined lane.element y))
  reader : lane.joins.inner = ⟨column, true⟩
  inside : column < size

theorem LaneStands.sighted {row column : Nat} {lane : Lane α} {shared : Buffered (Counted τ) α × List (α × α) × ω}
    (here : LaneStands joined (Grid.course xs) (Grid.course ys) row column true lane shared)
    (ready : computed lane = true) : Sighted joined xs ys column shared.1.buffer.size lane := by
  obtain ⟨ordinal, element, ⟨⟨index, observed⟩, cached, calls⟩⟩ := lane
  obtain ⟨rfl, left, stands⟩ := here
  match cached, ready with
  | some (.ready value), _ =>
    obtain ⟨given, _, rfl, _, inside, flag⟩ := stands
    have shown : (Grid.course ys index).isReady = true := by
      rw [← Status.isReady_map (joined element), ← given]
      rfl
    obtain rfl : observed = true := flag rfl shown
    obtain ⟨y, found⟩ := Status.isReady_iff.mp shown
    refine ⟨Iterated.answer_eq_ready.mp left, ⟨y, Iterated.answer_eq_ready.mp found, ?_⟩, rfl, inside rfl⟩
    rw [given, found]
    rfl

theorem sighted {shared : Buffered (Counted τ) α × List (α × α) × ω} {rows : List Nat} {due : Bool} {lanes : List (Lane α)}
    (stand : Lanes joined (Grid.course xs) (Grid.course ys) true shared 0 (inLine rows due) lanes)
    (counts : ∀ row, rows[row]?.getD 0 = givenFrom emitted row) {lane : Lane α} (among : lane ∈ lanes)
    (ready : computed lane = true) : Sighted joined xs ys (givenFrom emitted lane.ordinal) shared.1.buffer.size lane := by
  obtain ⟨place, found⟩ := List.mem_iff_getElem?.mp among
  obtain ⟨row, column, shown, ordinal, inside, answered, here⟩ := stand.getElem? found
  rw [Nat.zero_add] at ordinal here
  obtain rfl := answered rfl
  rw [ordinal, ← lane_column counts inside]
  exact here.sighted ready

theorem Sighted.front_eq {column size : Nat} {lane : Lane α} (sighted : Sighted joined xs ys column size lane) :
    front lane = (lane.ordinal, column) := by
  rw [front, sighted.reader]

theorem Sighted.advances {column size : Nat} {lane : Lane α} (sighted : Sighted joined xs ys column size lane)
    {β : Type} (second : Machine β τ α) (join : α → α → β → Attempt α × β) (shared : Buffered τ α × β) :
    advanceLane second join lane shared =
      (.ok (), ⟨lane.ordinal, lane.element, ⟨column + 1, false⟩, none, lane.joins.calls⟩, shared) := by
  obtain ⟨y, _, shown⟩ := sighted.right
  obtain ⟨ordinal, element, inner, cached, calls⟩ := lane
  obtain rfl : inner = ⟨column, true⟩ := sighted.reader
  obtain rfl : cached = some (.ready (joined element y)) := shown
  rfl

theorem heads_set {lanes : List (Lane α)} {place : Nat} {lane moved : Lane α} (found : lanes[place]? = some lane)
    (joined : computed lane = true) (bare : computed moved = false) :
    (heads lanes).Perm (front lane :: heads (lanes.set place moved)) := by
  induction lanes generalizing place with
  | nil => cases found
  | cons first lanes ih =>
    cases place with
    | zero =>
      cases found
      rw [heads_joined joined, List.set_cons_zero, heads_bare bare]
    | succ place =>
      rw [List.set_cons_succ, heads_cons, heads_cons first (lanes.set place moved)]
      exact ((ih found).append_left _).trans List.perm_middle

theorem joined_going {place : Nat} {rows : List Nat}
    (reached : Course.joinedAt le joined (Grid.course xs) (Grid.course ys) place = some rows) :
    Course.joined le joined (Grid.course xs) (Grid.course ys) place ≠ .pending := by
  have picked : Grid.Picked joined xs ys rows _ := Grid.picked le rows
  simp only [Course.joined, reached]
  generalize Course.decision le joined (Grid.course xs) (Grid.course ys) rows = decision at picked ⊢
  intro waits
  cases picked with
  | head => cases waits
  | ended => cases waits

theorem Books.polled {left : Counted σ} {leftEnded needsLeft : Bool} {cell : Buffered (Counted τ) α}
    {lanes kept : List (Lane α)} {appended : Nat} {choice : Option (Choice α)}
    {after : Buffered (Counted τ) α × List (α × α) × ω}
    (books : Books le joined xs ys emitted ⟨left, leftEnded, cell, lanes, appended, needsLeft, none⟩ world)
    (grown : cell.buffer.size ≤ after.1.buffer.size) (idle : appended = 0 → after.1 = cell)
    (account : Account xs ys (1 + farthest emitted) (heads kept ++ emitted) after)
    (all : ∀ lane ∈ kept, computed lane = true) :
    Books le joined xs ys emitted ⟨left, leftEnded, after.1, kept, appended, needsLeft, choice⟩ after.2 where
  counts := books.counts
  listed := books.listed
  distinct := books.distinct
  pulled := books.pulled
  peeked := books.peeked
  account := account
  behind row := Nat.le_trans (books.behind row) grown
  idle nothing := by
    rw [idle nothing]
    exact books.idle nothing
  settled _ := all

theorem Books.given {left : Counted σ} {leftEnded needsLeft due : Bool} {cell : Buffered (Counted τ) α}
    {lanes : List (Lane α)} {appended place row : Nat} {choice : Option (Choice α)} {lane moved : Lane α} {rows : List Nat}
    {value : α} (books : Books le joined xs ys emitted ⟨left, leftEnded, cell, lanes, appended, needsLeft, choice⟩ world)
    (reached : Course.joinedAt le joined (Grid.course xs) (Grid.course ys) emitted.length = some rows)
    (decided : Course.decision le joined (Grid.course xs) (Grid.course ys) rows = some (.ready value row))
    (ordinal : lane.ordinal = row) (found : lanes[place]? = some lane) (ready : computed lane = true)
    (sight : Sighted joined xs ys (givenFrom emitted lane.ordinal) cell.buffer.size lane) (bare : computed moved = false) :
    Books le joined xs ys (emitted ++ [front lane])
      ⟨left, leftEnded, cell, lanes.set place moved, appended, due, none⟩ world where
  counts := by
    intro later after other
    rw [List.length_append, List.length_singleton, joinedAt_given reached decided] at after
    cases after
    have picked : Grid.Picked joined xs ys rows _ := Grid.picked le rows
    rw [decided] at picked
    cases picked with
    | head inside => rw [Grid.given_count inside, books.counts rows reached, givenFrom_append, front, ordinal]
  listed p := by
    obtain ⟨other, column⟩ := p
    rw [List.mem_append, List.mem_singleton, books.listed, givenFrom_append, sight.front_eq, Prod.mk.injEq]
    dsimp only
    split
    · next same =>
      subst same
      omega
    · next apart =>
      rw [Nat.add_zero]
      exact or_iff_left fun same => apart same.1
  distinct := by
    refine books.distinct.append (List.nodup_singleton _) fun p before last => ?_
    obtain rfl := List.mem_singleton.mp last
    rw [books.listed, sight.front_eq] at before
    exact Nat.lt_irrefl _ before
  pulled := books.pulled
  peeked := books.peeked
  account := by
    have same : (heads lanes ++ emitted).Perm (heads (lanes.set place moved) ++ (emitted ++ [front lane])) := by
      refine ((heads_set found ready bare).append_right emitted).trans ?_
      rw [List.cons_append, ← List.append_assoc]
      exact (List.perm_append_singleton _ _).symm
    have below := farthest_append emitted (front lane)
    have account := books.account.perm same
    exact ⟨account.once, Nat.le_trans account.within (by omega), account.calls⟩
  behind other := by
    have before := books.behind other
    rw [givenFrom_append, front]
    split
    · next same =>
      subst same
      exact sight.inside
    · exact before
  idle := books.idle
  settled := nofun

theorem Placed.of_choice {place : Nat} {seen : Bool} {choice : Choice α}
    (there : Placed le joined xs ys firstStands secondStands place seen state world) (chosen : state.choice = some choice) :
    Placed le joined xs ys firstStands secondStands place true state world := by
  obtain ⟨rows, due, reached, between, held⟩ := there
  rw [chosen] at held
  exact ⟨rows, due, reached, between, by rwa [chosen]⟩

theorem Books.showing {seen : Bool} {value : α} {place : Nat} (books : Books le joined xs ys emitted state world)
    (there : Placed le joined xs ys firstStands secondStands emitted.length seen state world)
    (chosen : state.choice = some (.ready value place)) :
    ∃ rows lane, Course.joinedAt le joined (Grid.course xs) (Grid.course ys) emitted.length = some rows ∧
      Course.decision le joined (Grid.course xs) (Grid.course ys) rows = some (.ready value lane.ordinal) ∧
      state.lanes[place]? = some lane ∧ computed lane = true ∧
      Sighted joined xs ys (givenFrom emitted lane.ordinal) state.right.buffer.size lane := by
  obtain ⟨rows, due, reached, between, held⟩ := there
  rw [chosen] at held
  obtain ⟨-, same⟩ := held
  obtain ⟨_, decided, lane, found, rfl⟩ := same.lane
  have among := List.mem_of_getElem? found
  have ready := books.settled (by rw [chosen]; rfl) lane among
  have stand := between.lanes
  rw [chosen] at stand
  exact ⟨rows, lane, reached, decided, found, ready, sighted stand (books.counts rows reached) among ready⟩

section Calls
variable (left : Plays setting first (Grid.course xs) firstStands)
  (right : Plays setting second (Grid.course ys) secondStands) (computes : ∀ x y, setting.Computes (join x y) (joined x y))
include left right computes

theorem watched_plays (le : α → α → Bool) : Plays (setting.aside (List (α × α))) (watched first second le join)
    (.joined le joined (Grid.course xs) (Grid.course ys)) (Placed le joined xs ys firstStands secondStands) :=
  plays (Counted.plays left.aside) (Counted.plays right.aside) fun x y => noting_computes (computes x y)

theorem Books.queried (prompt : setting.Prompt) (sound : setting.sound world.2) {seen : Bool}
    (there : Placed le joined xs ys firstStands secondStands emitted.length seen state world)
    (books : Books le joined xs ys emitted state world) :
    ∃ later after, (watched first second le join).query state world = (.ok (answer later.choice), later, after) ∧
      Books le joined xs ys emitted later after := by
  obtain ⟨rows, due, reached, between, _⟩ := there
  simp only [watched, machine, query]
  cases decided : state.choice with
  | some choice => exact ⟨state, world, by rw [decided]; rfl, books⟩
  | none =>
    obtain ⟨later, middle, grown, undecided, fine, between, books⟩ := books.grown prompt left right decided sound between
    have row_lt : ∀ lane ∈ later.lanes, lane.ordinal < later.appended := fun _ among => between.ordinal_lt among
    have inside : ∀ column ∈ inLine rows false, column < 1 + farthest emitted := by
      intro column among
      obtain ⟨row, found⟩ := List.mem_iff_getElem?.mp among
      have same := lane_column (books.counts rows reached) found
      have below := givenFrom_le emitted row
      omega
    obtain ⟨statuses, kept, after, polled, moved, account, all⟩ :=
      poll_accounted prompt right computes between.lanes inside ⟨fine, between.right⟩ books.account
    obtain ⟨l, leftEnded, cell, lanes, appended, needsLeft, choice⟩ := later
    obtain rfl : choice = none := undecided
    simp only [grown, settle, polled]
    refine ⟨_, _, rfl, books.polled moved.2 (fun nothing => ?_) account all⟩
    obtain rfl : lanes = [] := List.eq_nil_iff_forall_not_mem.mpr fun lane among =>
      Nat.not_lt_zero _ (nothing ▸ row_lt lane among)
    cases polled
    rfl

theorem Books.asked (prompt : setting.Prompt) (sound : setting.sound world.2) {seen : Bool}
    (there : Placed le joined xs ys firstStands secondStands emitted.length seen state world)
    (books : Books le joined xs ys emitted state world) :
    ∃ choice later after, (watched first second le join).query state world = (.ok choice.status, later, after) ∧
      later.choice = some choice ∧ setting.sound after.2 ∧
      Placed le joined xs ys firstStands secondStands emitted.length true later after ∧
      Books le joined xs ys emitted later after := by
  have waitless : (setting.aside (List (α × α))).Prompt := fun cause _ _ => prompt cause _ _
  obtain ⟨later, after, asked, fine, _, placed⟩ :=
    ((watched_plays left right computes le).query there sound).exactly waitless
  obtain ⟨later', after', call, books⟩ := books.queried left right computes prompt sound there
  obtain ⟨answered, rfl, rfl⟩ : Course.joined le joined (Grid.course xs) (Grid.course ys) emitted.length =
      answer later'.choice ∧ later = later' ∧ after = after' := by simpa using asked.symm.trans call
  obtain ⟨rows, _, reached, _⟩ := there
  cases decided : later.choice with
  | none =>
    rw [decided] at answered
    exact absurd answered (joined_going reached)
  | some choice =>
    rw [decided] at answered
    refine ⟨choice, later, after, ?_, decided, fine, ?_, books⟩
    · rw [asked, answered]
      rfl
    · rw [answered] at placed
      cases choice with
      | ready => exact placed
      | ended => exact placed

theorem Books.taken (sound : setting.sound world.2) {seen : Bool} {value : α} {place : Nat} {lane : Lane α}
    (there : Placed le joined xs ys firstStands secondStands emitted.length seen state world)
    (books : Books le joined xs ys emitted state world)
    (chosen : state.choice = some (.ready value place)) (found : state.lanes[place]? = some lane) :
    ∃ later after, (watched first second le join).advance state world = (.ok (), later, after) ∧ setting.sound after.2 ∧
      Placed le joined xs ys firstStands secondStands (emitted ++ [front lane]).length false later after ∧
      Books le joined xs ys (emitted ++ [front lane]) later after := by
  obtain ⟨rows, other, reached, decided, same, ready, sight⟩ := books.showing there chosen
  obtain rfl := Option.some.inj (found.symm.trans same)
  have shown : (Course.joined le joined (Grid.course xs) (Grid.course ys) emitted.length).isReady = true := by
    simp only [Course.joined, reached, decided]
    rfl
  have passed := (watched_plays left right computes le).advance (there.of_choice chosen) shown sound
  obtain ⟨l, leftEnded, cell, lanes, appended, needsLeft, choice⟩ := state
  obtain rfl : choice = some (.ready value place) := chosen
  simp only [watched, machine, Paired.advance, found, sight.advances] at passed ⊢
  cases passed with
  | passed fine _ there =>
    refine ⟨_, _, rfl, sound, ?_, books.given reached decided rfl found ready sight rfl⟩
    rwa [List.length_append]

theorem Run.books (prompt : setting.Prompt) {l : σ} {r : τ} {outside : ω} (leftStarts : firstStands 0 false l outside)
    (rightStarts : secondStands 0 false r outside) (sound : setting.sound outside)
    (run : Run setting first second le join l r outside emitted state world) :
    setting.sound world.2 ∧ (∃ seen, Placed le joined xs ys firstStands secondStands emitted.length seen state world) ∧
      Books le joined xs ys emitted state world := by
  induction run with
  | start => exact ⟨sound, ⟨false, of_stands ⟨leftStarts, rfl⟩ ⟨rightStarts, rfl⟩⟩, .start l r outside⟩
  | asked _ call ih =>
    obtain ⟨fine, ⟨seen, there⟩, books⟩ := ih
    obtain ⟨choice, later, after, asked, _, fine, placed, books⟩ := books.asked left right computes prompt fine there
    cases call.symm.trans asked
    exact ⟨fine, ⟨true, placed⟩, books⟩
  | taken _ chosen found call ih =>
    obtain ⟨fine, ⟨seen, there⟩, books⟩ := ih
    obtain ⟨later, after, advanced, fine, placed, books⟩ := books.taken left right computes fine there chosen found
    cases call.symm.trans advanced
    exact ⟨fine, ⟨false, placed⟩, books⟩
  | elsewhere _ moved sound ih =>
    obtain ⟨_, ⟨seen, there⟩, books⟩ := ih
    exact ⟨sound, ⟨seen, (watched_plays left right computes le).kept there moved⟩, books.still rfl⟩

end Calls

end Steps

end Paired
end LightestFirst
