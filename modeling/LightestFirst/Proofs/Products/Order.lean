import Mathlib.Data.Finset.Card
import LightestFirst.Proofs.Products.Sorting
-- The order of a product, read by asking and advancing.
namespace LightestFirst
open Iterated (inTurn)
namespace Paired
open Grid (Before value)
variable {ω σ τ α : Type} {setting : Setting ω} {first : Machine ω σ α} {second : Machine ω τ α}
  {firstStands : Standing σ ω} {secondStands : Standing τ ω} {le : α → α → Bool} {join : α → α → α}
  {xs ys : Stream'.Seq α} {pairs : List (Nat × Nat)} {items : List α} {rows : List Nat}

theorem before_given (rising : Grid.Rising le join xs ys) (taken : Grid.Taken le join xs ys rows pairs)
    {p q : Nat × Nat} (given : p ∈ pairs) (before : Before le join xs ys q p) : q ∈ pairs := by
  by_contra out
  obtain ⟨w, _, here, _⟩ := id before
  exact before.asymm rising (taken.least p given q out (by rw [here]; rfl))

theorem given_at (rising : Grid.Rising le join xs ys) (emitted : Grid.Emitted le join xs ys rows pairs items)
    {p : Nat × Nat} (given : p ∈ pairs) {smaller : Finset (Nat × Nat)}
    (all : ∀ q, q ∈ smaller ↔ Before le join xs ys q p) : items[smaller.card]? = value join xs ys p := by
  obtain ⟨place, inside, rfl⟩ := List.mem_iff_getElem.mp given
  have distinct : pairs.Nodup := Before.nodup emitted.taken.ordered
  have earlier : smaller = (pairs.take place).toFinset := by
    ext q
    rw [all, List.mem_toFinset, List.mem_take_iff_getElem]
    constructor
    · intro before
      obtain ⟨k, within, rfl⟩ := List.mem_iff_getElem.mp (before_given rising emitted.taken given before)
      refine ⟨k, ?_, rfl⟩
      rcases Nat.lt_trichotomy k place with lower | rfl | higher
      · exact Nat.lt_min.mpr ⟨lower, within⟩
      · exact absurd before Before.irrefl
      · exact absurd (List.pairwise_iff_getElem.mp emitted.taken.ordered _ _ inside within higher) (before.asymm rising)
    · rintro ⟨k, lower, rfl⟩
      exact List.pairwise_iff_getElem.mp emitted.taken.ordered _ _ _ inside (Nat.lt_min.mp lower).1
  have count : smaller.card = place := by
    rw [earlier, List.toFinset_card_of_nodup (distinct.sublist (List.take_sublist _ _)), List.length_take]
    omega
  have there : (pairs.map (value join xs ys))[place]? = (items.map some)[place]? := by rw [emitted.values]
  rw [List.getElem?_map, List.getElem?_map, List.getElem?_eq_getElem inside] at there
  rw [count]
  cases found : items[place]? with
  | none => simp [found] at there
  | some v =>
    rw [found] at there
    exact (Option.some.inj there).symm

theorem serves_emitted {limit : Nat} (emitted : Grid.Emitted le join xs ys rows pairs items)
    (stop : items.length = limit ∨ items.length < limit ∧
      Course.joined le join (Grid.course xs) (Grid.course ys) items.length = .ended ∧
      ∀ q, (value join xs ys q).isSome = true → q ∈ pairs) :
    ∃ ending, (Course.joined le join (Grid.course xs) (Grid.course ys)).Serves 0 limit items ending ∧
      (ending = .limit ∧ items.length = limit ∨
        ending = .ended ∧ items.length < limit ∧ ∀ q, (value join xs ys q).isSome = true → q ∈ pairs) := by
  rcases stop with rfl | ⟨short, finished, all⟩
  · exact ⟨.limit, Course.serves_begun emitted.begins, .inl ⟨rfl, rfl⟩⟩
  · exact ⟨.ended, Course.serves_all emitted.begins finished short, .inr ⟨rfl, short, all⟩⟩

-- However many elements are read, they are the joins of that many pairs of the grid, which are the
-- first in its order; reading ends when no pair is left. Each pair with finitely many before it is
-- read behind just these, and a finite grid is read as a stable sort of its joins.
theorem product_gives_the_smallest_joins (rising : Grid.Rising le join xs ys) (prompt : setting.Prompt)
    (leftPlays : Plays setting first (Grid.course xs) firstStands)
    (rightPlays : Plays setting second (Grid.course ys) secondStands) {left : σ} {right : τ} {world : ω}
    (leftStarts : firstStands 0 false left world) (rightStarts : secondStands 0 false right world)
    (sound : setting.sound world) :
    (∀ limit, ∃ (pairs : List (Nat × Nat)) (items : List α) (ending : Ending) (later : Paired σ τ α) (after : ω),
      Session.drain (machine first second le (plainly join)) limit 0 [] 0 (of left right) world =
        (.ok ⟨items, ending, 0⟩, later, after) ∧
      pairs.map (value join xs ys) = items.map some ∧
      pairs.Pairwise (Before le join xs ys) ∧
      (∀ p ∈ pairs, ∀ q, Before le join xs ys q p → q ∈ pairs) ∧
      (ending = .limit ∧ items.length = limit ∨
        ending = .ended ∧ items.length < limit ∧ ∀ q, (value join xs ys q).isSome = true → q ∈ pairs) ∧
      ∀ p, (value join xs ys p).isSome = true → ∀ smaller : Finset (Nat × Nat),
        (∀ q, q ∈ smaller ↔ Before le join xs ys q p) → smaller.card < limit →
        items[smaller.card]? = value join xs ys p) ∧
    ∀ l m, xs = Stream'.Seq.ofList l → ys = Stream'.Seq.ofList m → ∀ limit, l.length * m.length < limit →
      ∃ later after, Session.drain (machine first second le (plainly join)) limit 0 [] 0 (of left right) world =
        (.ok ⟨(Grid.joins join l m).mergeSort le, .ended, 0⟩, later, after) := by
  have product : Plays setting (machine first second le (plainly join))
      (.joined le join (Grid.course xs) (Grid.course ys))
      (Stands le join (Grid.course xs) (Grid.course ys) firstStands secondStands) :=
    plays leftPlays rightPlays fun x y => setting.computes_pure (join x y)
  have starts : Stands le join (Grid.course xs) (Grid.course ys) firstStands secondStands 0 false
      (of left right) world := of_stands leftStarts rightStarts
  constructor
  · intro limit
    obtain ⟨rows, pairs, items, emitted, stop⟩ := Grid.emitted rising limit
    obtain ⟨ending, serves, stop⟩ := serves_emitted emitted stop
    obtain ⟨later, after, drained⟩ := product.drains prompt serves [] 0 starts sound
    refine ⟨pairs, items, ending, later, after, drained, emitted.values, emitted.taken.ordered,
      fun p given q before => before_given rising emitted.taken given before, stop, ?_⟩
    intro p there smaller all room
    refine given_at rising emitted ?_ all
    -- a pair not given would have every pair given before it
    by_contra out
    rcases stop with ⟨_, full⟩ | ⟨_, _, every⟩
    · have within : pairs.toFinset ⊆ smaller := by
        intro q given
        exact (all q).mpr (emitted.taken.least q (List.mem_toFinset.mp given) p out there)
      have count := Finset.card_le_card within
      rw [List.toFinset_card_of_nodup (Before.nodup emitted.taken.ordered), emitted.length_eq] at count
      omega
    · exact out (every p there)
  · rintro l m rfl rfl limit room
    rw [Grid.course_ofList] at leftPlays rightPlays
    have serves := Course.serves_all (Course.ofList_begins ((Grid.joins join l m).mergeSort le))
      (Course.ofList_length _) (by rw [List.length_mergeSort, Grid.length_joins]; exact room)
    exact (plays_lists rising leftPlays rightPlays).drains prompt serves [] 0
      (of_stands leftStarts rightStarts) sound

theorem sums_in_order : ∃ later after,
    Session.drain (machine (Iterated.machine (inTurn (Stream'.Seq.ofList [1, 2])))
        (Iterated.machine (inTurn (Stream'.Seq.ofList [0, 5]))) (· ≤ · : Nat → Nat → Bool) (plainly (· + ·)))
      5 0 [] 0 (of (.start 0) (.start 0)) () = (.ok ⟨[1, 2, 6, 7], .ended, 0⟩, later, after) := by
  have rising : Grid.Rising (· ≤ · : Nat → Nat → Bool) (· + ·) (Stream'.Seq.ofList [1, 2])
      (Stream'.Seq.ofList [0, 5]) := by
    refine Grid.rising_lists ?_ ?_ ?_ ?_ ?_ ?_
    · exact fun x y => by simpa using Nat.le_total x y
    · exact fun one two => by simpa using Nat.le_trans (by simpa using one) (by simpa using two)
    · exact fun y below => by simpa using below
    · exact fun x _ _ below => by simpa using below
    · simp
    · simp
  have sorted : (Grid.joins (· + ·) [1, 2] [0, 5]).mergeSort (· ≤ · : Nat → Nat → Bool) = [1, 2, 6, 7] := by
    simp [Grid.joins, List.mergeSort, List.MergeSort.Internal.splitInTwo]
  rw [← sorted]
  exact (product_gives_the_smallest_joins rising Setting.free_prompt (Iterated.inTurn_plays _) (Iterated.inTurn_plays _)
    (Iterated.inTurn_starts _ ()) (Iterated.inTurn_starts _ ()) trivial).2 [1, 2] [0, 5] rfl rfl 5 (by decide)

end Paired
end LightestFirst
