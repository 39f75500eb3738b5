import LightestFirst.Proofs.Products.Order
import LightestFirst.Proofs.Sharing
-- What a product gives whatever its comparison says and however its sides are ordered. The comparison
-- only decides which of the heads goes next; a head is always among those in line, so every row is
-- given from its start, a row is begun behind those before it, and no row is left out.
namespace LightestFirst
open Iterated (inTurn)

namespace Grid
variable {α : Type} {le : α → α → Bool} {join : α → α → α} {xs ys : Stream'.Seq α} {rows : List Nat}
  {pairs : List (Nat × Nat)} {items : List α}

-- How a pair stands to one that is given later: in its row the columns go up, and rows are begun in turn.
def Rowwise (p q : Nat × Nat) : Prop := (p.1 = q.1 → p.2 < q.2) ∧ (p.2 = 0 → q.2 = 0 → p.1 < q.1)

theorem Rowwise.irrefl {p : Nat × Nat} : ¬ Rowwise p p := fun before => Nat.lt_irrefl _ (before.1 rfl)

theorem Rowwise.nodup (ordered : pairs.Pairwise Rowwise) : pairs.Nodup := by
  refine ordered.imp fun {p q} before => ?_
  rintro rfl
  exact before.irrefl

structure Covered (le : α → α → Bool) (join : α → α → α) (xs ys : Stream'.Seq α) (rows : List Nat)
    (pairs : List (Nat × Nat)) (items : List α) : Prop where
  given : ∀ p, p ∈ pairs ↔ p.2 < rows[p.1]?.getD 0
  begun : ∀ count ∈ rows, 0 < count
  ordered : pairs.Pairwise Rowwise
  values : pairs.map (value join xs ys) = items.map some
  reached : Course.joinedAt le join (course xs) (course ys) items.length = some rows
  begins : (Course.joined le join (course xs) (course ys)).Begins items

theorem Covered.length_eq (covered : Covered le join xs ys rows pairs items) : pairs.length = items.length := by
  simpa using congrArg List.length covered.values

theorem given_begun (begun : ∀ count ∈ rows, 0 < count) (row : Nat) : ∀ count ∈ Course.given rows row, 0 < count := by
  intro count among
  rw [Course.given] at among
  split at among
  · obtain ⟨k, found⟩ := List.mem_iff_getElem?.mp among
    rw [List.getElem?_modify] at found
    obtain ⟨old, there, rfl⟩ := Option.map_eq_some_iff.mp found
    have := begun old (List.mem_of_getElem? there)
    split <;> omega
  · rcases List.mem_append.mp among with among | last
    · exact begun count among
    · obtain rfl := List.mem_singleton.mp last
      exact Nat.one_pos

theorem Covered.head_later (covered : Covered le join xs ys rows pairs items) {row : Nat} {p : Nat × Nat}
    (among : p ∈ pairs) : Rowwise p (head rows row) := by
  have inside := (covered.given p).mp among
  refine ⟨fun same => ?_, fun first fresh => ?_⟩
  · obtain rfl : p.1 = row := same
    exact inside
  · rcases Nat.lt_or_ge row rows.length with begun | beyond
    · have some_given := covered.begun _ (List.getElem_mem begun)
      simp only [head, List.getElem?_eq_getElem begun, Option.getD_some] at fresh
      omega
    · refine Nat.lt_of_lt_of_le ?_ beyond
      by_contra outside
      rw [List.getElem?_eq_none (Nat.le_of_not_lt outside)] at inside
      exact absurd inside (Nat.not_lt_zero _)

theorem Covered.step (covered : Covered le join xs ys rows pairs items) :
    (∃ row v, Covered le join xs ys (Course.given rows row) (pairs ++ [head rows row]) (items ++ [v])) ∨
      Course.joined le join (course xs) (course ys) items.length = .ended ∧
        ∀ row ≤ rows.length, value join xs ys (head rows row) = none := by
  have here : Course.joined le join (course xs) (course ys) items.length =
      Paired.answer (Course.decision le join (course xs) (course ys) rows) := by
    simp only [Course.joined, covered.reached]
  generalize decision : Course.decision le join (course xs) (course ys) rows = decided at here
  have outcome : Picked join xs ys rows _ := picked le rows
  rw [decision] at outcome
  cases outcome with
  | ended nothing => exact .inr ⟨here, nothing⟩
  | @head v row inside there =>
    refine .inl ⟨row, v, ?_, given_begun covered.begun row, ?_, ?_, ?_, ?_⟩
    · intro p
      rw [List.mem_append, List.mem_singleton, covered.given, given_mem inside]
    · refine List.pairwise_append.mpr ⟨covered.ordered, List.pairwise_singleton _ _, fun p given q last => ?_⟩
      obtain rfl := List.mem_singleton.mp last
      exact covered.head_later given
    · rw [List.map_append, List.map_append, covered.values]
      simp [there]
    · rw [List.length_append, List.length_singleton]
      exact Paired.joinedAt_given covered.reached decision
    · exact covered.begins.append here

theorem covered (le : α → α → Bool) (join : α → α → α) (xs ys : Stream'.Seq α) (limit : Nat) :
    ∃ rows pairs items, Covered le join xs ys rows pairs items ∧
    (items.length = limit ∨ Course.joined le join (course xs) (course ys) items.length = .ended ∧
      ∀ row ≤ rows.length, value join xs ys (head rows row) = none) := by
  induction limit with
  | zero => exact ⟨[], [], [], ⟨by simp, nofun, .nil, rfl, rfl, nofun⟩, .inl rfl⟩
  | succ limit ih =>
    obtain ⟨rows, pairs, items, covered, reached | finished⟩ := ih
    · rcases covered.step with ⟨row, v, further⟩ | finished
      · exact ⟨_, _, _, further, .inl (by simp [reached])⟩
      · exact ⟨rows, pairs, items, covered, .inr finished⟩
    · exact ⟨rows, pairs, items, covered, .inr finished⟩

section Lists
variable {l m : List α}

theorem cells_within {p q : Nat × Nat} (inside : q ∈ cells l m) (down : p.1 ≤ q.1) (right : p.2 ≤ q.2) :
    p ∈ cells l m := by
  obtain ⟨i, j⟩ := p
  obtain ⟨i', j'⟩ := q
  simp only [cells, List.pair_mem_product, List.mem_range] at inside ⊢
  omega

-- A cell left out would have a head in line, in its own row or in the first one not begun.
theorem Covered.complete (covered : Covered le join (Stream'.Seq.ofList l) (Stream'.Seq.ofList m) rows pairs items)
    (nothing : ∀ row ≤ rows.length, value join (Stream'.Seq.ofList l) (Stream'.Seq.ofList m) (head rows row) = none)
    {p : Nat × Nat} (inside : p ∈ cells l m) : p ∈ pairs := by
  by_contra out
  have behind : rows[p.1]?.getD 0 ≤ p.2 := Nat.le_of_not_lt fun given => out ((covered.given p).mpr given)
  have inLine : ∃ row ≤ rows.length, head rows row ∈ cells l m := by
    rcases Nat.le_total p.1 rows.length with begun | beyond
    · exact ⟨p.1, begun, cells_within inside (Nat.le_refl _) behind⟩
    · refine ⟨rows.length, Nat.le_refl _, cells_within inside beyond ?_⟩
      simp [head]
  obtain ⟨row, among, cell⟩ := inLine
  have there : (value join (Stream'.Seq.ofList l) (Stream'.Seq.ofList m) (head rows row)).isSome = true :=
    value_isSome.mpr cell
  rw [nothing row among] at there
  cases there

theorem Covered.among (covered : Covered le join (Stream'.Seq.ofList l) (Stream'.Seq.ofList m) rows pairs items)
    {p : Nat × Nat} (given : p ∈ pairs) : p ∈ cells l m := by
  have there : value join (Stream'.Seq.ofList l) (Stream'.Seq.ofList m) p ∈ items.map some := by
    rw [← covered.values]
    exact List.mem_map_of_mem given
  obtain ⟨v, _, same⟩ := List.mem_map.mp there
  exact value_isSome.mp (by rw [← same]; rfl)

theorem nodup_cells (l m : List α) : (cells l m).Nodup := List.nodup_range.product List.nodup_range

theorem length_cells (l m : List α) : (cells l m).length = l.length * m.length :=
  (List.length_product _ _).trans (by rw [List.length_range, List.length_range])

theorem covered_all (le : α → α → Bool) (join : α → α → α) (l m : List α) : ∃ rows pairs items,
    Covered le join (Stream'.Seq.ofList l) (Stream'.Seq.ofList m) rows pairs items ∧ pairs.Perm (cells l m) ∧
      Course.joined le join (course (Stream'.Seq.ofList l)) (course (Stream'.Seq.ofList m)) items.length = .ended := by
  obtain ⟨rows, pairs, items, covered, stop⟩ :=
    covered le join (Stream'.Seq.ofList l) (Stream'.Seq.ofList m) ((cells l m).length + 1)
  have distinct : pairs.Nodup := Rowwise.nodup covered.ordered
  have short : pairs.length ≤ (cells l m).length :=
    (List.subperm_of_subset distinct fun _ given => covered.among given).length_le
  have long : items.length ≠ (cells l m).length + 1 := by have := covered.length_eq; omega
  obtain ⟨finished, nothing⟩ := stop.resolve_left long
  refine ⟨rows, pairs, items, covered, ?_, finished⟩
  exact (List.perm_ext_iff_of_nodup distinct (nodup_cells l m)).mpr fun p =>
    ⟨covered.among, covered.complete nothing⟩

end Lists
end Grid

namespace Paired
variable {ω σ τ α : Type} {setting : Setting ω} {first : Machine ω σ α} {second : Machine ω τ α}
  {firstStands : Standing σ ω} {secondStands : Standing τ ω} {le : α → α → Bool}
  {join : α → α → ω → Attempt α × ω} {joined : α → α → α} {xs : Stream'.Seq α} {m : List α}

theorem grow_queries (state : Paired (Counted σ) τ α) (world : ω) :
    (grow (Counted.machine first) state world).2.1.left.queries ≤ state.left.queries + 1 := by
  rw [grow.eq_def]
  split
  · rename_i left right lanes appended choice
    simp only [Counted.machine]
    generalize first.query left.stream world = asked
    obtain ⟨⟨_⟩ | ⟨_⟩ | _ | _, stream, after⟩ := asked
    · exact Nat.le_refl _
    · simp only [Machine.within]
      cases (first.advance stream after).1
      · exact Nat.le_refl _
      · exact Nat.le_refl _
    · exact Nat.le_refl _
    · exact Nat.le_refl _
  · exact Nat.le_succ _

theorem settle_left (state : Paired σ τ α) (world : ω) : (settle second le join state world).2.1.left = state.left := by
  rw [settle]
  generalize poll second join state.lanes (state.right, world) = polled
  obtain ⟨_ | _, _, _, _⟩ := polled
  · rfl
  · rfl

theorem query_queries {state : Paired (Counted σ) τ α} (undecided : state.choice = none) (world : ω) :
    (query (Counted.machine first) second le join state world).2.1.left.queries ≤ state.left.queries + 1 := by
  have grown : (grow (Counted.machine first) state world).2.1.left.queries ≤ _ := grow_queries state world
  simp only [query, undecided]
  generalize grow (Counted.machine first) state world = outcome at grown ⊢
  obtain ⟨_ | (_ | _), state, world⟩ := outcome
  · exact grown
  · exact grown
  · dsimp only
    rw [settle_left]
    exact grown

theorem joined_nothing (le : α → α → Bool) (joined : α → α → α) (xs : Stream'.Seq α) :
    Course.decision le joined (Grid.course xs) (.ofList []) [] = some .ended := by
  have picked : Grid.Picked joined xs (Stream'.Seq.ofList []) [] _ := Grid.picked le []
  rw [Grid.course_ofList] at picked
  generalize Course.decision le joined (Grid.course xs) (.ofList []) [] = decided at picked ⊢
  cases picked with
  | ended => rfl
  | head _ there =>
    obtain ⟨_, _, _, nothing, _⟩ := Grid.value_some.mp there
    simp at nothing

theorem ends_at_once (prompt : setting.Prompt) (computes : ∀ x y, setting.Computes (join x y) (joined x y))
    (leftPlays : Plays setting first (Grid.course xs) firstStands)
    (rightPlays : Plays setting second (.ofList []) secondStands) {left : σ} {right : τ} {world : ω}
    (leftStarts : firstStands 0 false left world) (rightStarts : secondStands 0 false right world)
    (sound : setting.sound world) :
    ∃ later after, (machine (Counted.machine first) second le join).query (of (.start left) right) world =
        (.ok .ended, later, after) ∧ later.left.queries ≤ 1 ∧ later.left.advances ≤ 1 ∧
      ∀ world, (machine (Counted.machine first) second le join).query later world = (.ok .ended, later, world) := by
  have product : Plays setting (machine (Counted.machine first) second le join)
      (.joined le joined (Grid.course xs) (.ofList [])) _ := plays (Counted.plays leftPlays) rightPlays computes
  have starts : Stands le joined (Grid.course xs) (.ofList []) (Counted.Stands firstStands) secondStands 0 false
      (of (.start left) right) world := of_stands ⟨leftStarts, rfl⟩ rightStarts
  have count : (query (Counted.machine first) second le join (of (.start left) right) world).2.1.left.queries ≤ 1 :=
    query_queries rfl world
  obtain ⟨later, after, asked, _, _, rows, due, reached, between, settled⟩ := (product.query starts sound).exactly prompt
  obtain rfl : [] = rows := Option.some.inj reached
  have finished : Course.joined le joined (Grid.course xs) (.ofList []) 0 = .ended := by
    simp only [Course.joined, Course.joinedAt, joined_nothing]
    rfl
  rw [finished] at asked settled
  have asked' : query (Counted.machine first) second le join (of (.start left) right) world =
      (.ok .ended, later, after) := asked
  rw [asked'] at count
  cases chosen : later.choice with
  | none =>
    rw [chosen] at settled
    cases settled
  | some choice =>
    rw [chosen, joined_nothing] at settled
    obtain ⟨rfl, same⟩ := settled
    cases choice with
    | ready => cases same
    | ended =>
      obtain ⟨_, _, advanced⟩ := between.left
      refine ⟨later, after, asked, count, ?_, fun world => ?_⟩
      · rw [advanced]
        have frontier := between.frontier
        generalize later.leftEnded = leftEnded, later.needsLeft = needsLeft, later.appended = appended at frontier ⊢
        cases frontier with
        | fetched => exact Nat.le_refl _
        | finished => exact Nat.zero_le _
      · simp only [machine, query, chosen, Choice.status]

-- Of two finite streams every pair is given once, whatever the comparison says of them and in whatever
-- order they come: each row from its start, the rows begun in turn, and then the product ends. With
-- nothing on the right it ends at once, after one look at the left stream, which may go on for ever.
theorem product_covers_the_grid (prompt : setting.Prompt)
    (computes : ∀ x y, setting.Computes (join x y) (joined x y))
    (leftPlays : Plays setting first (Grid.course xs) firstStands)
    (rightPlays : Plays setting second (.ofList m) secondStands) {left : σ} {right : τ} {world : ω}
    (leftStarts : firstStands 0 false left world) (rightStarts : secondStands 0 false right world)
    (sound : setting.sound world) :
    (∀ l, xs = Stream'.Seq.ofList l → ∃ (pairs : List (Nat × Nat)) (items : List α),
      pairs.Perm (Grid.cells l m) ∧
      pairs.map (Grid.value joined xs (Stream'.Seq.ofList m)) = items.map some ∧
      pairs.Pairwise (fun p q => p.1 = q.1 → p.2 < q.2) ∧
      pairs.Pairwise (fun p q => p.2 = 0 → q.2 = 0 → p.1 < q.1) ∧
      items.length = l.length * m.length ∧
      ∀ limit, ∃ (ending : Ending) (later : Paired σ τ α) (after : ω),
        Session.drain (machine first second le join) limit 0 [] 0 (of left right) world =
          (.ok ⟨items.take limit, ending, 0⟩, later, after) ∧
        (ending = .ended ↔ l.length * m.length < limit)) ∧
    (m = [] → ∃ (later : Paired (Counted σ) τ α) (after : ω),
      (∀ limit, Session.drain (machine (Counted.machine first) second le join) (limit + 1) 0 [] 0
        (of (.start left) right) world = (.ok ⟨[], .ended, 0⟩, later, after)) ∧
      later.left.queries ≤ 1 ∧ later.left.advances ≤ 1 ∧
      ∀ world, (machine (Counted.machine first) second le join).query later world = (.ok .ended, later, world)) := by
  constructor
  · rintro l rfl
    obtain ⟨rows, pairs, items, covered, perm, finished⟩ := Grid.covered_all le joined l m
    have count : items.length = l.length * m.length := by
      rw [← covered.length_eq, perm.length_eq, Grid.length_cells]
    refine ⟨pairs, items, perm, covered.values, covered.ordered.imp And.left, covered.ordered.imp And.right, count, ?_⟩
    intro limit
    rw [Grid.course_ofList] at leftPlays
    have begins := covered.begins
    rw [Grid.course_ofList, Grid.course_ofList] at finished begins
    obtain ⟨ending, serves, ends⟩ := Course.serves_take begins finished limit
    obtain ⟨later, after, drained⟩ := (plays leftPlays rightPlays computes).drains prompt serves [] 0
      (of_stands leftStarts rightStarts) sound
    exact ⟨ending, later, after, drained, by rw [ends, count]⟩
  · rintro rfl
    obtain ⟨later, after, asked, queried, advanced, settled⟩ :=
      ends_at_once prompt computes leftPlays rightPlays leftStarts rightStarts sound
    refine ⟨later, after, fun limit => ?_, queried, advanced, settled⟩
    rw [Session.drain.eq_def, asked]
    rfl

theorem unordered_covered :
    (∃ (pairs : List (Nat × Nat)) (items : List Nat), pairs.Perm (Grid.cells [2, 1, 3] [5, 0]) ∧
      items.length = 6 ∧ ∃ later after,
        Session.drain (machine (Iterated.machine (inTurn (Stream'.Seq.ofList [2, 1, 3])))
            (Iterated.machine (inTurn (Stream'.Seq.ofList [5, 0]))) (fun _ _ => false) (plainly (· + ·)))
          7 0 [] 0 (of (.start 0) (.start 0)) () = (.ok ⟨items.take 7, .ended, 0⟩, later, after)) ∧
    ∃ (later : Paired (Counted (Iterated Nat Nat)) (Iterated Nat Nat) Nat) (after : Unit),
      Session.drain (machine (Counted.machine (Iterated.machine (inTurn ↑(Stream'.nats))))
          (Iterated.machine (inTurn (Stream'.Seq.ofList []))) (fun _ _ => false) (plainly (· + ·)))
        3 0 [] 0 (of (.start (.start 0)) (.start 0)) () = (.ok ⟨[], .ended, 0⟩, later, after) ∧
      later.left.advances ≤ 1 := by
  have pure : ∀ x y : Nat, (Setting.free Unit).Computes (plainly (· + ·) x y) (x + y) :=
    fun x y => Setting.computes_pure _ (x + y)
  have lists : ∀ l : List Nat, Plays (Setting.free Unit) (Iterated.machine (inTurn (Stream'.Seq.ofList l))) (.ofList l)
      (Iterated.InTurn (Stream'.Seq.ofList l)) := fun l => Grid.course_ofList l ▸ Iterated.inTurn_plays (Stream'.Seq.ofList l)
  constructor
  · obtain ⟨pairs, items, perm, _, _, _, count, drains⟩ := (product_covers_the_grid Setting.free_prompt pure
      (Iterated.inTurn_plays (Stream'.Seq.ofList [2, 1, 3])) (lists [5, 0]) (Iterated.inTurn_starts _ ())
      (Iterated.inTurn_starts _ ()) trivial).1 [2, 1, 3] rfl
    obtain ⟨ending, later, after, drained, ends⟩ := drains 7
    obtain rfl := ends.mpr (by decide)
    exact ⟨pairs, items, perm, count, later, after, drained⟩
  · obtain ⟨later, after, drained, _, advanced, _⟩ := (product_covers_the_grid Setting.free_prompt pure
      (Iterated.inTurn_plays ↑(Stream'.nats)) (lists []) (Iterated.inTurn_starts _ ()) (Iterated.inTurn_starts _ ()) trivial).2 rfl
    exact ⟨later, after, drained 2, advanced⟩

end Paired
end LightestFirst
